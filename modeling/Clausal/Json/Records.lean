import Clausal.Algorithm
import Clausal.Benchmark
import Clausal.Json.Reader

/-! # Verdicts, settings and records in JSON

An assignment is an object that gives each variable number its value, in the order of the
variables.  A verdict is its tag, with the model if there is one.

An algorithm is written as its name, and may also be read as an object whose one member has that
name and the value null.  The settings of the random walk are an object of three members.

A span of time is an object of seconds and nanoseconds, an outcome is an object of a status and,
for an error, a message, and records and reports are objects of their fields.  All of them may also
be read as arrays of their fields in order.  Fields that do not belong to an object are passed over,
except in a span of time. -/

namespace Clausal

/-! ### Verdicts -/

def Assignment.toJson (s : Assignment) : Json :=
  .record (s.literals.toList.map fun l => (toString l.var.index, .bool l.positive))

namespace Verdict

def toJson : Verdict → Json
  | sat s => .record [("result", .ofString (sat s).tag), ("assignment", s.toJson)]
  | unsat => .record [("result", .ofString unsat.tag)]
  | unknown => .record [("result", .ofString unknown.tag)]

end Verdict

/-! ### Algorithms and settings -/

namespace Algorithm

def toJson (a : Algorithm) : Json := .ofString a.name

def ofJson? (j : Json) : Option Algorithm := j.choice?.bind (ofName? false)

end Algorithm

namespace WalkSettings

def toJson (w : WalkSettings) : Json :=
  .record [("max_flips", .ofNat w.maxFlips), ("noise", .ofFloat w.noise),
    ("seed", .ofNat w.seed.toNat)]

def ofJson? (j : Json) : Option WalkSettings := do
  match ← j.fields? ["max_flips", "noise", "seed"] true with
  | [some maxFlips, some noise, some seed] =>
      return ⟨← maxFlips.nat? 64, ← noise.float?, UInt64.ofNat (← seed.nat? 64)⟩
  | _ => none

end WalkSettings

/-! ### Records -/

namespace Duration

def toJson (d : Duration) : Json :=
  .record [("secs", .ofNat d.seconds), ("nanos", .ofNat d.remainder)]

/-- Nanoseconds of a second or more carry over into the seconds, which have to fit in 64 bits. -/
def ofJson? (j : Json) : Option Duration := do
  match ← j.fields? ["secs", "nanos"] false with
  | [some secs, some nanos] =>
      let d : Duration := ⟨(← secs.nat? 64) * 1000000000 + (← nanos.nat? 32)⟩
      guard (d.seconds < Nat.pow 2 64)
      return d
  | _ => none

end Duration

namespace Outcome

def status : Outcome → String
  | sat => "Sat"
  | unsat => "UnSat"
  | unknown => "Unknown"
  | timeout => "Timeout"
  | error _ => "Error"

def toJson (o : Outcome) : Json :=
  match o with
  | error message =>
      .record [("status", .ofString o.status), ("message", .ofString message)]
  | sat | unsat | unknown | timeout => .record [("status", .ofString o.status)]

/-- The outcome of a status and a message, which only an error has. -/
def ofStatus? (status : String) (message? : Option Json) : Option Outcome :=
  let bare (o : Outcome) : Option Outcome :=
    if message?.all Json.isNull then some o else none
  match status with
  | "Sat" => bare sat
  | "UnSat" => bare unsat
  | "Unknown" => bare unknown
  | "Timeout" => bare timeout
  | "Error" => (message?.bind Json.text?).map error
  | _ => none

/-- As an array, an outcome has its status as text; as a field, the status is a choice. -/
def ofJson? (j : Json) : Option Outcome := do
  match j with
  | .array [status, message] => ofStatus? (← status.text?) (some message)
  | .array _ => none
  | j =>
      match ← j.fields? ["status", "message"] true with
      | [some status, message?] => ofStatus? (← status.choice?) message?
      | _ => none

end Outcome

namespace Record

def toJson (r : Record) : Json :=
  .record [("filename", .ofString r.filename), ("elapsed", r.elapsed.toJson),
    ("peak_mem_kb", .ofOption .ofNat r.peakMemory?), ("outcome", r.outcome.toJson)]

def ofJson? (j : Json) : Option Record := do
  match ← j.fields? ["filename", "elapsed", "peak_mem_kb", "outcome"] true with
  | [some filename, some elapsed, peak?, some outcome] =>
      return ⟨← filename.text?, ← Duration.ofJson? elapsed,
        ← Json.optional? (Json.nat? 64) peak?, ← Outcome.ofJson? outcome⟩
  | _ => none

end Record

namespace Report

def toJson (r : Report) : Json :=
  .record [("solver", .ofString r.solver), ("timeout", .ofOption Duration.toJson r.timeout?),
    ("records", .array (r.records.map Record.toJson))]

def ofJson? (j : Json) : Option Report := do
  match ← j.fields? ["solver", "timeout", "records"] true with
  | [some solver, timeout?, some records] =>
      return ⟨← solver.text?, ← Json.optional? Duration.ofJson? timeout?,
        ← records.items? Record.ofJson?⟩
  | _ => none

end Report

end Clausal
