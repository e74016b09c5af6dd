import JitPack.Store.Registry

/-!
# The stamp step

`stamp.go`: the columns the server owns are taken out of every mutation before anything reads it,
and the table's rule writes them back from the authenticated actor. The rules of the three records
with a who and a when (a packing, a claim, a purchase, a resolved task) are one rule,
`stampRecord`.
-/

namespace JitPack

/-! ## Instants

`time.Parse` and `Time.Format` with the layout `time.RFC3339`. The reader takes an hour of one digit
and a fraction of a second, which the layout does not show. -/

namespace Instant

/-- A number of `n` decimal digits. -/
def digits (n : Nat) (cs : List Char) : Option (Nat × List Char) :=
  if (cs.take n).length = n ∧ (cs.take n).all Char.isDigit then
    some ((cs.take n).foldl (fun v c => 10 * v + (c.toNat - '0'.toNat)) 0, cs.drop n)
  else none

def char (c : Char) (cs : List Char) : Option (List Char) :=
  if cs.head? = some c then some cs.tail else none

def skipFraction : List Char → List Char
  | c :: d :: cs => if (c = '.' ∨ c = ',') ∧ d.isDigit then cs.dropWhile Char.isDigit else c :: d :: cs
  | cs => cs

/-- `Z` or an offset from UTC. -/
def zone (cs : List Char) : Option (List Char) :=
  char 'Z' cs <|> do
    let cs ← char '+' cs <|> char '-' cs
    let (hour, cs) ← digits 2 cs
    let (minute, cs) ← digits 2 (← char ':' cs)
    if hour ≤ 24 ∧ minute ≤ 60 then some cs else none

def daysIn (month year : Nat) : Nat :=
  if month = 2 then (if year % 4 = 0 ∧ (year % 100 ≠ 0 ∨ year % 400 = 0) then 29 else 28)
  else if month ∈ [4, 6, 9, 11] then 30 else 31

/-- The text is a time in the format of RFC 3339. -/
def parses (s : String) : Bool := Option.isSome do
  let (year, cs) ← digits 4 s.toList
  let (month, cs) ← digits 2 (← char '-' cs)
  let (day, cs) ← digits 2 (← char '-' cs)
  let cs ← char 'T' cs
  let (hour, cs) ← digits 2 cs <|> digits 1 cs
  let (minute, cs) ← digits 2 (← char ':' cs)
  let (second, cs) ← digits 2 (← char ':' cs)
  let rest ← zone (skipFraction cs)
  if 1 ≤ month ∧ month ≤ 12 ∧ 1 ≤ day ∧ day ≤ daysIn month year ∧ hour < 24 ∧ minute < 60 ∧
    second < 60 ∧ rest = [] then some () else none

def pad (width : Nat) (n : Int) : String :=
  let ds := toString n.natAbs
  (if n < 0 then "-" else "") ++ String.ofList (List.replicate (width - ds.length) '0') ++ ds

/-- The date of a day counted from 1970-01-01. The years of the computation start in March, in
periods of 400 years of 146097 days each. -/
def date (days : Int) : String :=
  let z := days + 719468
  let era := z / 146097
  let doe := z - era * 146097
  let yoe := (doe - doe / 1460 + doe / 36524 - doe / 146096) / 365
  let doy := doe - (365 * yoe + yoe / 4 - yoe / 100)
  let mp := (5 * doy + 2) / 153
  let day := doy - (153 * mp + 2) / 5 + 1
  let month := if mp < 10 then mp + 3 else mp - 9
  let year := yoe + era * 400 + (if month ≤ 2 then 1 else 0)
  pad 4 year ++ "-" ++ pad 2 month ++ "-" ++ pad 2 day

/-- The time of the day of a millisecond, up to the second. -/
def time (millis : Int) : String :=
  let seconds := millis / 1000 % 86400
  pad 2 (seconds / 3600) ++ ":" ++ pad 2 (seconds / 60 % 60) ++ ":" ++ pad 2 (seconds % 60)

end Instant

/-- A reading of the store's clock, in milliseconds of Unix time. -/
abbrev Now := Int

/-- `nowRFC3339`. -/
def Now.rfc3339 (now : Now) : String := Instant.date (now / 86400000) ++ "T" ++ Instant.time now ++ "Z"

/-- `nowMillis`. -/
def Now.millis (now : Now) : String :=
  Instant.date (now / 86400000) ++ "T" ++ Instant.time now ++ "." ++ Instant.pad 3 (now % 1000) ++ "Z"

example : Now.rfc3339 951782399999 = "2000-02-28T23:59:59Z" := by decide +kernel

/-- `tapTime`: the client's tap time if it is an instant, else now. -/
def tapTime (tapped : String) (now : Now) : String := if Instant.parses tapped then tapped else now.rfc3339

/-! ## The fields of a mutation -/

/-- Go's `v, ok := x.(string)`. -/
def Value.asString : Value → Option String
  | .str s => some s
  | _ => none

/-- `m.Fields[field]`: nil where the mutation has no such field. -/
def Mutation.get (m : Mutation) (field : String) : Value := (m.fields.lookup field).getD .null

/-- `m.Fields[field].(string)`. -/
def Mutation.string (m : Mutation) (field : String) : Option String := (m.get field).asString

/-- `delete(m.Fields, field)`. -/
def Mutation.drop (m : Mutation) (field : String) : Mutation := { m with fields := m.fields.erase field }

def Mutation.key (m : Mutation) (t : Table) : Key := ⟨t, m.id⟩

/-! ## The rules -/

/-- `stampInput`: what a rule may read besides the mutation. `sent` is what the client put into the
server-owned columns. The readings of the clock that one call takes are one reading here. -/
structure StampInput where
  actorID : String
  row : Row
  sent : Fields
  now : Now

/-- `serverOwned`: the columns no client may decide, and the rule that writes them back. -/
structure ServerOwned where
  columns : List String
  stamp : StampInput → Mutation → Mutation

/-- `recordColumns`: the who and the when of a record. -/
structure RecordColumns where
  who : String
  time : String

/-- `stampRecord`. `known` says whether the mutation speaks about the state of the record at all. -/
def stampRecord (i : StampInput) (cols : RecordColumns) (known done : Bool) (m : Mutation) : Mutation :=
  if !known then m
  else if done then
    let tapped := ((i.sent.lookup cols.time).bind Value.asString).getD ""
    (m.set cols.who (.str i.actorID)).set cols.time (.str (tapTime tapped i.now))
  else (m.set cols.who .null).set cols.time .null

/-- `stampedOnInsert`. -/
def stampedOnInsert (column : String) : ServerOwned where
  columns := [column]
  stamp i m := if m.op = .insert then m.set column (.str i.actorID) else m

/-- `stampedOnCreate`. -/
def stampedOnCreate (column : String) : ServerOwned where
  columns := [column]
  stamp i m := if !i.row.present ∧ m.op ≠ .delete then m.set column (.str i.actorID) else m

/-- `commentOwned`: authorship, and the resolution record that follows `task_state`. -/
def commentOwned : ServerOwned where
  columns := ["author_id", "resolved_by_user_id", "resolved_at"]
  stamp i m :=
    let m := (stampedOnInsert "author_id").stamp i m
    stampRecord i ⟨"resolved_by_user_id", "resolved_at"⟩ (m.string "task_state").isSome
      (m.string "task_state" = some "resolved") m

def purchaseColumns : RecordColumns := ⟨"bought_by_user_id", "bought_at"⟩

/-- `boughtFlagOwned`: the purchase record that follows the flag `bought`. -/
def boughtFlagOwned : ServerOwned where
  columns := ["bought_by_user_id", "bought_at"]
  stamp i m :=
    stampRecord i purchaseColumns (m.fields.lookup "bought").isSome (isTruthy (m.get "bought")) m

def packingColumns : RecordColumns := ⟨"packed_by_user_id", "packed_at"⟩
def claimColumns : RecordColumns := ⟨"packing_now_by", "packing_now_at"⟩

/-- `tripItemOwned`: the purchase record follows `bought_from`, the packing record and the claim
follow `state`. -/
def tripItemOwned : ServerOwned where
  columns := ["bought_by_user_id", "bought_at", "packed_by_user_id", "packed_at", "packing_now_by",
    "packing_now_at"]
  stamp i m :=
    let m := stampRecord i purchaseColumns (m.fields.lookup "bought_from").isSome
      (m.get "bought_from" ≠ .null) m
    let state := m.string fieldState
    let m := stampRecord i packingColumns state.isSome (state = some statePacked) m
    stampRecord i claimColumns state.isSome (state = some statePackingNow) m

/-- `serverOwned` of the registry. -/
def Table.serverOwned : Table → ServerOwned
  | .items | .trips => stampedOnCreate "created_by"
  | .templates | .tripSeries => stampedOnCreate "owner_id"
  | .tripItems => tripItemOwned
  | .comments => commentOwned
  | .shoppingEntries | .mealIngredients => boughtFlagOwned
  | .noteAcks | .ideaVotes => stampedOnInsert "user_id"
  | .ideas | .ideaComments | .dayEntries => stampedOnInsert "author_id"
  | _ => ⟨[], fun _ m => m⟩

/-- `stampServerOwned`. -/
def stampServerOwned (t : Table) (m : Mutation) (row : Row) (actorID : String) (now : Now) : Mutation :=
  let owned := t.serverOwned
  let sent := owned.columns.foldl (fun sent c =>
    match m.fields.lookup c with
    | some v => sent.insert c v
    | none => sent) (∅ : Fields)
  owned.stamp ⟨actorID, row, sent, now⟩ (owned.columns.foldl Mutation.drop m)

end JitPack
