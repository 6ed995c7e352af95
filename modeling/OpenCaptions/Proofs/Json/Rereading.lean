import OpenCaptions.Proofs.Json.Numbers
import OpenCaptions.Proofs.Json.Strings
import OpenCaptions.Proofs.Table

/-!
Reading printed JSON back. Every value that can be read at all is printed as a text that is read as the same value.
-/
namespace OpenCaptions.Json

/-- Values that texts have: numbers within their ranges, members in order of their names, and no more than `levels`
levels below the value. -/
inductive Readable : Nat → Json → Prop
  | null {levels : Nat} : Readable levels .null
  | bool {levels : Nat} (b : Bool) : Readable levels (.bool b)
  | nat {levels n : Nat} (h : n < word64) : Readable levels (.nat n)
  | negative {levels n : Nat} (h0 : 0 < n) (h : n ≤ 2 ^ 63) : Readable levels (.negative n)
  | float {levels : Nat} {x : Float} (h : x.isFinite = true) : Readable levels (.float x)
  | string {levels : Nat} (s : String) : Readable levels (.string s)
  | array {levels : Nat} {items : List Json} (h : ∀ item ∈ items, Readable levels item) :
    Readable (levels + 1) (.array items)
  | object {levels : Nat} {members : List (String × Json)} (hs : members.Pairwise (·.1 < ·.1))
    (h : ∀ member ∈ members, Readable levels member.2) : Readable (levels + 1) (.object members)

/-- Values with a text of their own, in which no float is infinite or undefined. -/
inductive Printable : Json → Prop
  | null : Printable .null
  | bool (b : Bool) : Printable (.bool b)
  | nat (n : Nat) : Printable (.nat n)
  | negative (n : Nat) : Printable (.negative n)
  | float {x : Float} (h : x.isFinite = true) : Printable (.float x)
  | string (s : String) : Printable (.string s)
  | array {items : List Json} (h : ∀ item ∈ items, Printable item) : Printable (.array items)
  | object {members : List (String × Json)} (h : ∀ member ∈ members, Printable member.2) : Printable (.object members)

theorem Readable.printable {levels : Nat} {value : Json} (h : Readable levels value) : Printable value := by
  induction h with
  | null => exact .null
  | bool b => exact .bool b
  | nat h => exact .nat _
  | negative h0 h => exact .negative _
  | float h => exact .float h
  | string s => exact .string s
  | array h ih => exact .array ih
  | object hs h ih => exact .object ih

mutual

def toTree : Json → Tree
  | null => .null
  | bool b => .bool b
  | nat n => .number (Nat.toDigits 10 n)
  | negative n => .number ('-' :: Nat.toDigits 10 n)
  | float x => .number (floatText x)
  | string s => .string (s.toList.flatMap escapedChar)
  | array items => .array (itemTrees items)
  | object members => .object (memberTrees members)

def itemTrees : List Json → List Tree
  | [] => []
  | item :: items => item.toTree :: itemTrees items

def memberTrees : List (String × Json) → List (List Char × Tree)
  | [] => []
  | (name, value) :: members => (name.toList.flatMap escapedChar, value.toTree) :: memberTrees members

end

section Values

/-- The value of a number is within its range. -/
theorem readable_of_ofNumber? {text : List Char} {value : Json} (h : ofNumber? text = some value) (levels : Nat) :
    Readable levels value := by
  have hdecimal {d : Number.Decimal} (h : ofWhole.ofDecimal d = some value) : Readable levels value := by
    unfold ofWhole.ofDecimal at h
    dsimp only at h
    split at h
    · rename_i hfinite
      cases h
      exact .float hfinite
    · cases h
  unfold ofNumber? at h
  dsimp only at h
  split at h
  · unfold ofWhole at h
    split at h
    · split at h
      · rename_i hrange
        cases h
        exact .negative hrange.1 hrange.2
      · exact hdecimal h
    · split at h
      · rename_i hrange
        cases h
        exact .nat hrange
      · exact hdecimal h
  · obtain ⟨d, -, hd⟩ := Option.bind_eq_some_iff.1 h
    exact hdecimal hd

variable {charset : Charset} {levels : Nat}

private theorem readable_of_itemValues?
    (ih : ∀ (tree : Tree) (value : Json), tree.value? charset levels = some value → Readable levels value)
    {items : List Tree} {values : List Json} (h : itemValues? charset levels items = some values) :
    ∀ value ∈ values, Readable levels value := by
  induction items generalizing values with
  | nil =>
    cases h
    simp
  | cons item items ihitems =>
    simp only [itemValues?, Option.bind_eq_bind, Option.bind_eq_some_iff, Option.pure_def, Option.some.injEq] at h
    obtain ⟨value, hvalue, values, hvalues, rfl⟩ := h
    rw [List.forall_mem_cons]
    exact ⟨ih item value hvalue, ihitems hvalues⟩

private theorem readable_of_memberValues?
    (ih : ∀ (tree : Tree) (value : Json), tree.value? charset levels = some value → Readable levels value)
    {members : List (List Char × Tree)} {values : List (String × Json)}
    (h : memberValues? charset levels members = some values) : ∀ value ∈ values, Readable levels value.2 := by
  induction members generalizing values with
  | nil =>
    cases h
    simp
  | cons member members ihmembers =>
    simp only [memberValues?, Option.bind_eq_bind, Option.bind_eq_some_iff, Option.pure_def, Option.some.injEq] at h
    obtain ⟨name, -, value, hvalue, values, hvalues, rfl⟩ := h
    rw [List.forall_mem_cons]
    exact ⟨ih member.2 value hvalue, ihmembers hvalues⟩

/-- Whatever a text means is a value that texts have. -/
theorem readable_of_value? {tree : Tree} {value : Json} (h : tree.value? charset levels = some value) :
    Readable levels value := by
  induction levels using Nat.strong_induction_on generalizing tree value with
  | _ levels ih =>
    cases tree with
    | null =>
      cases h
      exact .null
    | bool b =>
      cases h
      exact .bool b
    | number text => exact readable_of_ofNumber? h levels
    | string raw =>
      obtain ⟨s, -, rfl⟩ := Option.map_eq_some_iff.1 h
      exact .string s
    | array items =>
      rw [Tree.value?] at h
      split at h
      · cases h
      · obtain ⟨n, rfl⟩ := Nat.exists_eq_succ_of_ne_zero ‹levels ≠ 0›
        obtain ⟨values, hvalues, rfl⟩ := Option.map_eq_some_iff.1 h
        exact .array (readable_of_itemValues? (fun _ _ => ih n (Nat.lt_succ_self n)) hvalues)
    | object members =>
      rw [Tree.value?] at h
      split at h
      · cases h
      · obtain ⟨n, rfl⟩ := Nat.exists_eq_succ_of_ne_zero ‹levels ≠ 0›
        obtain ⟨values, hvalues, rfl⟩ := Option.map_eq_some_iff.1 h
        have hreadable := readable_of_memberValues? (fun _ _ => ih n (Nat.lt_succ_self n)) hvalues
        exact .object (Table.ofList values).sorted fun member hmem => hreadable member (Table.mem_of_mem_ofList hmem)

theorem value?_toTree {value : Json} (h : Readable levels value) : value.toTree.value? .text levels = some value := by
  induction h with
  | null => rfl
  | bool b => rfl
  | nat h => exact ofNumber?_toDigits h
  | negative h0 h => exact ofNumber?_minus_toDigits h0 h
  | float h => exact ofNumber?_floatText h
  | string s => rw [toTree, Tree.value?, string?_escaped, Option.map_some]
  | @array levels items h ih =>
    have hitems : itemValues? .text levels (itemTrees items) = some items := by
      clear h
      induction items with
      | nil => rfl
      | cons item items ihitems =>
        rw [List.forall_mem_cons] at ih
        simp [itemTrees, itemValues?, ih.1, ihitems ih.2]
    simp [toTree, Tree.value?, hitems]
  | @object levels members hs h ih =>
    have hmembers : memberValues? .text levels (memberTrees members) = some members := by
      clear h hs
      induction members with
      | nil => rfl
      | cons member members ihmembers =>
        rw [List.forall_mem_cons] at ih
        simp [memberTrees, memberValues?, string?_escaped, ih.1, ihmembers ih.2]
    simp [toTree, Tree.value?, hmembers, Table.entries_ofList hs]

end Values

section Reading

variable {c : Char} {rest s : List Char} {fuel level : Nat}

theorem skipSpace_cons (h : isSpace c = false) : skipSpace (c :: s) = c :: s := by
  rw [skipSpace, List.dropWhile_cons_of_neg (by simp [h])]

theorem skipSpace_lineBreak (level : Nat) (s : List Char) : skipSpace (lineBreak level ++ s) = skipSpace s := by
  have hspaces : ∀ c ∈ List.replicate (2 * level) ' ', isSpace c = true := by
    intro c hc
    rw [List.eq_of_mem_replicate hc]
    rfl
  rw [lineBreak, List.cons_append, skipSpace, List.dropWhile_cons_of_pos rfl, List.dropWhile_append_of_pos hspaces]
  rfl

theorem skipSpace_skipSpace (s : List Char) : skipSpace (skipSpace s) = skipSpace s := List.dropWhile_idempotent _ s

theorem readTree_skipSpace (fuel : Nat) (s : List Char) : readTree fuel (skipSpace s) = readTree fuel s := by
  cases fuel with
  | zero => rfl
  | succ fuel => rw [readTree, readTree, skipSpace_skipSpace]

theorem readTree_lineBreak (fuel level : Nat) (s : List Char) : readTree fuel (lineBreak level ++ s) = readTree fuel s := by
  rw [← readTree_skipSpace, skipSpace_lineBreak, readTree_skipSpace]

theorem starts_number (h : c.isDigit = true ∨ c = '-') : isSpace c = false ∧ c ≠ ']' := by
  have hne {d : Char} (hd : ¬ (d.isDigit = true ∨ d = '-')) : c ≠ d := fun heq => hd (heq ▸ h)
  refine ⟨?_, hne (by decide)⟩
  simp [isSpace, hne (d := ' ') (by decide), hne (d := '\t') (by decide), hne (d := '\n') (by decide),
    hne (d := '\r') (by decide)]

/-- The text of a value starts with a character that is no blank and closes no array. -/
theorem exists_textAt {value : Json} (h : Printable value) (level : Nat) :
    ∃ c s, textAt level value = c :: s ∧ isSpace c = false ∧ c ≠ ']' := by
  have hnumber {text : List Char} (h : IsNumber text) :
      ∃ c s, text = c :: s ∧ isSpace c = false ∧ c ≠ ']' := by
    obtain ⟨c, s, rfl, hc⟩ := h.exists_cons
    exact ⟨c, s, rfl, starts_number hc⟩
  cases h with
  | null => exact ⟨'n', _, rfl, by decide⟩
  | bool b => cases b <;> exact ⟨_, _, rfl, by decide⟩
  | nat n => exact hnumber (isNumber_toDigits n)
  | negative n => exact hnumber (isNumber_minus_toDigits n)
  | float h => exact hnumber (isNumber_floatText h)
  | string s => exact ⟨'"', _, rfl, by decide⟩
  | @array items h =>
    cases items with
    | nil => exact ⟨'[', _, by rw [textAt], by decide⟩
    | cons item items => exact ⟨'[', _, by rw [textAt]; rfl, by decide⟩
  | @object members h =>
    cases members with
    | nil => exact ⟨'\x7b', _, by rw [textAt], by decide⟩
    | cons member members => exact ⟨'\x7b', _, by rw [textAt]; rfl, by decide⟩

theorem readTree_number {text : List Char} (h : IsNumber text) (hrest : EndsNumber rest) :
    readTree (fuel + 1) (text ++ rest) = some (.number text, rest) := by
  have hscan := h.scanNumber_append hrest
  obtain ⟨c, s, rfl, hc⟩ := h.exists_cons
  rw [List.cons_append] at hscan ⊢
  rw [readTree, skipSpace_cons (starts_number hc).1]
  split
  case h_7 => rw [hscan, Option.map_some]
  all_goals
    rename_i heq
    obtain ⟨rfl, -⟩ := List.cons.inj heq
    exact absurd hc (by decide)

theorem readTree_blank (fuel : Nat) (s : List Char) : readTree fuel (' ' :: s) = readTree fuel s := by
  rw [← readTree_skipSpace, skipSpace, List.dropWhile_cons_of_pos rfl]
  exact readTree_skipSpace fuel s

theorem readItems_lineBreak (fuel level : Nat) (s : List Char) :
    readItems fuel (lineBreak level ++ s) = readItems fuel s := by
  cases fuel with
  | zero => rfl
  | succ fuel => rw [readItems, readItems, readTree_lineBreak]

theorem readMembers_lineBreak (fuel level : Nat) (s : List Char) :
    readMembers fuel (lineBreak level ++ s) = readMembers fuel s := by
  cases fuel with
  | zero => rfl
  | succ fuel => rw [readMembers, readMembers, skipSpace_lineBreak]

theorem endsNumber_cons {c : Char} (h : c.isDigit = false ∧ c ≠ '.' ∧ c ≠ 'e' ∧ c ≠ 'E') (s : List Char) :
    EndsNumber (c :: s) := by
  rintro d ⟨⟩
  exact h

theorem endsNumber_lineBreak (level : Nat) (s : List Char) : EndsNumber (lineBreak level ++ s) :=
  endsNumber_cons (by decide) _

/-- The text of a value is read as its structure, given fuel for all of its characters. -/
def RereadsAt (level : Nat) (value : Json) : Prop :=
  ∀ fuel rest, (textAt level value).length ≤ fuel → EndsNumber rest →
    readTree (fuel + 1) (textAt level value ++ rest) = some (value.toTree, rest)

theorem readItems_itemsText (fuel : Nat) {item : Json} {items : List Json} (h : ∀ value ∈ item :: items, RereadsAt level value)
    (hfuel : (textAt level item).length + (itemsText level items).length + 1 < fuel) (outer : Nat) (rest : List Char) :
    readItems fuel (textAt level item ++ (itemsText level items ++ (lineBreak outer ++ ']' :: rest))) =
      some (item.toTree :: itemTrees items, rest) := by
  induction items generalizing fuel item with
  | nil =>
    obtain ⟨fuel, rfl⟩ : ∃ k, fuel = k + 2 := ⟨fuel - 2, by omega⟩
    have hitem := h item List.mem_cons_self fuel (lineBreak outer ++ ']' :: rest) (by omega) (endsNumber_lineBreak _ _)
    rw [readItems, itemsText, List.nil_append, hitem]
    simp [skipSpace_lineBreak, skipSpace_cons (c := ']') (by decide), itemTrees]
  | cons next items ih =>
    obtain ⟨fuel, rfl⟩ : ∃ k, fuel = k + 2 := ⟨fuel - 2, by omega⟩
    rw [List.forall_mem_cons] at h
    have hlength : (itemsText level (next :: items)).length =
        2 * level + 2 + (textAt level next).length + (itemsText level items).length := by
      simp [itemsText, lineBreak]
      omega
    have hitem := h.1 fuel (itemsText level (next :: items) ++ (lineBreak outer ++ ']' :: rest)) (by omega)
      (endsNumber_cons (by decide) _)
    have hitems := ih (fuel + 1) h.2 (by omega)
    rw [readItems, hitem]
    simp [itemsText, skipSpace_cons (c := ',') (by decide), readItems_lineBreak, hitems, itemTrees]

theorem readMembers_membersText (fuel : Nat) {name : String} {value : Json} {members : List (String × Json)}
    (h : ∀ member ∈ (name, value) :: members, RereadsAt level member.2)
    (hfuel : (textAt level value).length + (membersText level members).length + 1 < fuel) (outer : Nat)
    (rest : List Char) :
    readMembers fuel (stringText name ++ ':' :: ' ' :: (textAt level value ++
      (membersText level members ++ (lineBreak outer ++ '\x7d' :: rest)))) =
      some ((name.toList.flatMap escapedChar, value.toTree) :: memberTrees members, rest) := by
  induction members generalizing fuel name value with
  | nil =>
    obtain ⟨fuel, rfl⟩ : ∃ k, fuel = k + 2 := ⟨fuel - 2, by omega⟩
    have hreads : RereadsAt level value := h (name, value) List.mem_cons_self
    have hvalue := hreads fuel (lineBreak outer ++ '\x7d' :: rest) (by omega) (endsNumber_lineBreak _ _)
    rw [readMembers, stringText_append, membersText]
    simp [skipSpace_cons (c := '"') (by decide), skipSpace_cons (c := ':') (by decide), scanString_escaped,
      readTree_blank, hvalue, skipSpace_lineBreak, skipSpace_cons (c := '\x7d') (by decide), memberTrees]
  | cons next members ih =>
    obtain ⟨fuel, rfl⟩ : ∃ k, fuel = k + 2 := ⟨fuel - 2, by omega⟩
    obtain ⟨nextName, nextValue⟩ := next
    rw [List.forall_mem_cons] at h
    have hlength : 2 + (textAt level nextValue).length + (membersText level members).length ≤
        (membersText level ((nextName, nextValue) :: members)).length := by
      simp [membersText, lineBreak]
      omega
    have hreads : RereadsAt level value := h.1
    have hvalue := hreads fuel (membersText level ((nextName, nextValue) :: members) ++ (lineBreak outer ++ '\x7d' :: rest))
      (by omega) (endsNumber_cons (by decide) _)
    have hmembers := ih (fuel + 1) h.2 (by omega)
    rw [readMembers, stringText_append]
    simp only [skipSpace_cons (c := '"') (by decide), skipSpace_cons (c := ':') (by decide), scanString_escaped,
      readTree_blank, hvalue, Option.bind_eq_bind, Option.bind_some]
    simp [membersText, skipSpace_cons (c := ',') (by decide), readMembers_lineBreak, hmembers, memberTrees]

theorem rereadsAt {value : Json} (h : Printable value) (level : Nat) : RereadsAt level value := by
  induction h generalizing level with
  | null =>
    intro fuel rest hfuel hrest
    rfl
  | bool b =>
    intro fuel rest hfuel hrest
    cases b <;> rfl
  | nat n =>
    intro fuel rest hfuel hrest
    exact readTree_number (isNumber_toDigits n) hrest
  | negative n =>
    intro fuel rest hfuel hrest
    exact readTree_number (isNumber_minus_toDigits n) hrest
  | float h =>
    intro fuel rest hfuel hrest
    exact readTree_number (isNumber_floatText h) hrest
  | string s =>
    intro fuel rest hfuel hrest
    rw [readTree, textAt, stringText]
    simp [skipSpace_cons (c := '"') (by decide), scanString_escaped, toTree]
  | @array items h ih =>
    intro fuel rest hfuel hrest
    cases items with
    | nil => rfl
    | cons item items =>
      -- The first item does not start like the end of the array.
      obtain ⟨c, s, hs, hspace, hclose⟩ := exists_textAt (h item List.mem_cons_self) (level + 1)
      have hlength : (textAt (level + 1) item).length + (itemsText (level + 1) items).length + 1 < fuel := by
        simp [textAt, lineBreak] at hfuel
        omega
      have hitems := readItems_itemsText fuel (fun value hvalue => ih value hvalue (level + 1)) hlength level rest
      rw [hs, List.cons_append] at hitems
      rw [readTree, textAt]
      simp [skipSpace_cons (c := '[') (by decide), skipSpace_lineBreak, hs, skipSpace_cons hspace, hclose, hitems, toTree,
        itemTrees]
  | @object members h ih =>
    intro fuel rest hfuel hrest
    cases members with
    | nil => rfl
    | cons member members =>
      obtain ⟨name, value⟩ := member
      have hlength : (textAt (level + 1) value).length + (membersText (level + 1) members).length + 1 < fuel := by
        simp [textAt, lineBreak] at hfuel
        omega
      have hmembers := readMembers_membersText fuel (fun member hmember => ih member hmember (level + 1)) hlength level rest
      rw [stringText_append] at hmembers
      rw [readTree, textAt]
      simp [skipSpace_cons (c := '\x7b') (by decide), skipSpace_lineBreak, skipSpace_cons (c := '"') (by decide),
        stringText_append, hmembers, toTree, memberTrees]

end Reading

/-- The structure of a value is read back from its text. -/
theorem read?_text {value : Json} (h : Printable value) : Tree.read? value.text.toList = some value.toTree := by
  have hread := rereadsAt h 0 (textAt 0 value).length [] (Nat.le_refl _) (by simp [EndsNumber])
  rw [List.append_nil] at hread
  rw [text, String.toList_ofList, Tree.read?, hread]
  rfl

/-- Printing and reading give the value back. -/
theorem parse?_text {value : Json} (h : Readable deepest value) : parse? value.text.toList = some value := by
  rw [parse?, read?_text h.printable]
  exact value?_toTree h

theorem readable_of_parse? {s : List Char} {value : Json} (h : parse? s = some value) : Readable deepest value := by
  obtain ⟨tree, -, htree⟩ := Option.bind_eq_some_iff.1 h
  exact readable_of_value? htree

end OpenCaptions.Json
