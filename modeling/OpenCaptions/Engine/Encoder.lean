/-!
Encoders for H.264, in the order in which they are tried.
-/
namespace OpenCaptions

inductive Encoder where
  | nvenc | amf | qsv | software
deriving DecidableEq, Repr

namespace Encoder

def hardware : List Encoder := [nvenc, amf, qsv]

def name : Encoder → String
  | nvenc => "h264_nvenc"
  | amf => "h264_amf"
  | qsv => "h264_qsv"
  | software => "libx264"

def arguments : Encoder → List String
  | nvenc => ["-c:v", "h264_nvenc", "-preset", "p7", "-cq", "19"]
  | amf => ["-c:v", "h264_amf", "-quality", "quality", "-qp_i", "18", "-qp_p", "20"]
  | qsv => ["-c:v", "h264_qsv", "-preset", "veryslow", "-global_quality", "18"]
  | software => ["-c:v", "libx264", "-crf", "18", "-preset", "fast"]

end Encoder
end OpenCaptions
