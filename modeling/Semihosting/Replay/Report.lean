import Semihosting.Json.Printer
import Semihosting.Replay.Summary

/-!
# Reports

A summary is reported as JSON over several lines. Rejections are listed under the names of their
protocol codes, so far as there are any.
-/
namespace Semihosting.Replay

/-- Rejections are written as an object from names to counts. -/
def Tally.toJson (tally : Tally) : Json :=
  .ofFields (tally.toList.map fun (code, count) => (code.name, .ofNat count))

def Summary.toJson (summary : Summary) : Json :=
  .ofFields [
    ("entries", .ofNat summary.entries),
    ("mutations", .ofNat summary.mutations),
    ("accepted", .ofNat summary.accepted),
    ("rejected", .ofNat summary.rejected),
    ("rejections", summary.rejections.toJson),
    ("inconsistent", .array (summary.inconsistent.map Json.ofText))]

def Summary.report (summary : Summary) : String :=
  summary.toJson.pretty

end Semihosting.Replay
