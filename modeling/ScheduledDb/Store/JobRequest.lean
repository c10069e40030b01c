import ScheduledDb.Node

/-!
# From a create request to a job

`CreateJobRequest.ToJob`, `ParseTimestamp` and `Job.Validate` of `internal/store/types/job.go`.
Times in other formats than a decimal number, and cron expressions, are read by libraries; `Parsers`
stands for them.
-/

namespace ScheduledDb

open Machine Program

structure CreateJobRequest where
  id : String := ""
  type : JobType
  timestamp : String := ""
  cronExpr : String := ""
  lastDate : String := ""
  webhookURL : String := ""
  payload : Option Payload := none
  deriving DecidableEq, Repr

/-- `time.Parse` (a layout, a text; the result in Unix seconds) and the error, if any, of
`cronParser.Parse`. -/
structure Parsers where
  parseTime : String → String → Option ℤ
  parseCron : String → Option String

def timestampLayouts : List String :=
  [ "2006-01-02T15:04:05Z07:00",
    "2006-01-02T15:04:05Z07:00",
    "2006-01-02T15:04:05-07:00",
    "2006-01-02T15:04:05+07:00",
    "2006-01-02 15:04:05" ]

/-- `ParseTimestamp`: a decimal number, or else the first layout that fits. -/
def parseTimestamp (p : Parsers) (ts : String) : Except String ℤ :=
  if ts = "" then .ok 0
  else
    match parseInt64 ts with
    | some epoch => .ok epoch
    | none =>
      match timestampLayouts.findSome? fun layout => p.parseTime layout ts with
      | some epoch => .ok epoch
      | none => .error ("invalid timestamp format: " ++ ts)

namespace CreateJobRequest

/-- A time field of the request, if it is set. -/
def parseField (p : Parsers) (name text : String) : Except String (Option ℤ) :=
  if text = "" then .ok none
  else
    match parseTimestamp p text with
    | .error err => .error ("invalid " ++ name ++ ": " ++ err)
    | .ok epoch => .ok (some epoch)

/-- `ToJob` from the moment the id is known. -/
def build (p : Parsers) (r : CreateJobRequest) (id : String) (now : ℤ) : Except String Job :=
  let job : Job :=
    { id := id
      type := r.type
      cronExpr := r.cronExpr
      createdAt := now
      webhookURL := r.webhookURL
      payload := r.payload }
  match r.type with
  | .unico =>
    match parseField p "timestamp" r.timestamp with
    | .error err => .error err
    | .ok timestamp => .ok { job with timestamp := timestamp }
  | .recurrente =>
    match parseField p "timestamp" r.timestamp with
    | .error err => .error err
    | .ok timestamp =>
      match parseField p "last_date" r.lastDate with
      | .error err => .error err
      | .ok lastDate => .ok { job with createdAt := timestamp.getD now, lastDate := lastDate }
  | .other _ => .ok job

/-- A fresh id for a request without one. -/
def chooseID (r : CreateJobRequest) : Program Act String :=
  if r.id = "" then perform .newUUID else pure r.id

def toJob (p : Parsers) (r : CreateJobRequest) : Program Act (Except String Job) := do
  let now ← perform .now
  let id ← r.chooseID
  pure (r.build p id now)

end CreateJobRequest

/-- `Job.Validate`; `none` is `nil`. -/
def Job.validate (p : Parsers) (job : Job) : Program Act (Option String) :=
  if job.id = "" then pure (some "job ID is required")
  else
    match job.type with
    | .unico =>
      match job.timestamp with
      | none => pure (some "timestamp is required for unico jobs")
      | some timestamp => do
          let now ← perform .now
          if timestamp ≤ now then pure (some "timestamp must be in the future") else pure none
    | .recurrente =>
      if job.cronExpr = "" then pure (some "cron_expression is required for recurrente jobs")
      else
        match p.parseCron job.cronExpr with
        | some err => pure (some ("invalid cron expression: " ++ err))
        | none => pure none
    | .other text => pure (some ("invalid job type: " ++ text))

end ScheduledDb
