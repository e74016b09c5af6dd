import JitPack.Lib.Grouping
import JitPack.Lib.Keyed
import JitPack.Lib.Regex
import JitPack.Client.Numeral
import JitPack.Client.Gpx

/-!
# Amounts of ingredients

`units.ts`, `parseIngredient` of `mealPlan.ts` and `sumAmounts` of `ingredients.ts`: the table of units, the amount
that is split off a typed ingredient, and the amounts of a line added up by family and by unit.

Numbers are exact. `toLowerCase` is a parameter of which the table and the pattern need only what it makes of the
letters that a unit is written with (`Casing`).
-/

namespace JitPack

namespace Amounts

open Shopping (Text)
open Numeral
open Regex
open Gpx (units spaces)

/-! ## Units -/

/-- `UnitFamily`. -/
inductive UnitFamily where
  | mass
  | volume
  | count
  | named
  deriving DecidableEq

/-- `Unit`: an entry of the table. -/
structure TableUnit where
  id : String
  family : UnitFamily
  factor : ℚ
  spellings : List Text
  deriving DecidableEq

/-- `measure`. -/
def measure (id : String) (family : UnitFamily) (factor : ℚ) (spellings : List String) : TableUnit :=
  ⟨id, family, factor, spellings.map units⟩

/-- `named`: one and many, for each pair. -/
def named (id : String) (pairs : List (String × String)) : TableUnit :=
  ⟨id, .named, 1, pairs.flatMap fun p => [units p.1, units p.2]⟩

/-- `UNITS`. -/
def table : List TableUnit :=
  [measure "mg" .mass (1 / 1000) ["mg", "Milligramm"],
    measure "g" .mass 1 ["g", "Gramm", "gr", "gram", "grams"],
    measure "kg" .mass 1000 ["kg", "Kilo", "Kilogramm", "kilogram", "kilograms"],
    measure "ml" .volume 1 ["ml", "Milliliter", "millilitre", "milliliter"],
    measure "cl" .volume 10 ["cl", "Zentiliter"],
    measure "dl" .volume 100 ["dl", "Deziliter"],
    measure "l" .volume 1000 ["l", "Liter", "litre", "litres", "liters"],
    measure "piece" .count 1 ["Stk.", "Stk", "Stück", "piece", "pieces", "pc", "pcs"],
    named "jar" [("Glas", "Gläser"), ("jar", "jars")],
    named "can" [("Dose", "Dosen"), ("can", "cans"), ("tin", "tins")],
    named "packet" [("Packung", "Packungen"), ("Pck.", "Pck"), ("pack", "packs"), ("packet", "packets")],
    named "bottle" [("Flasche", "Flaschen"), ("Fl.", "Fl"), ("bottle", "bottles")],
    named "bunch" [("Bund", "Bunde"), ("bunch", "bunches")],
    named "pinch" [("Prise", "Prisen"), ("pinch", "pinches")],
    named "tbsp" [("EL", "EL"), ("Esslöffel", "Esslöffel"), ("tbsp", "tbsp")],
    named "tsp" [("TL", "TL"), ("Teelöffel", "Teelöffel"), ("tsp", "tsp")],
    named "cup" [("Tasse", "Tassen"), ("cup", "cups")],
    named "tub" [("Becher", "Becher"), ("tub", "tubs")],
    named "tube" [("Tube", "Tuben"), ("tube", "tubes")],
    named "clove" [("Zehe", "Zehen"), ("clove", "cloves")],
    named "slice" [("Scheibe", "Scheiben"), ("slice", "slices")],
    named "pot" [("Topf", "Töpfe"), ("pot", "pots")],
    named "bag" [("Beutel", "Beutel"), ("bag", "bags")],
    named "head" [("Kopf", "Köpfe"), ("head", "heads")],
    named "stick" [("Stange", "Stangen"), ("stick", "sticks")]]

/-- The letters that a pattern of units can match: ASCII, the German umlauts, the long s and the Kelvin sign. -/
def IsPlain (u : ℕ) : Prop := u < 128 ∨ u ∈ [0xC4, 0xD6, 0xDC, 0xE4, 0xF6, 0xFC, 0x17F, 0x212A]

instance : DecidablePred IsPlain := fun _ => inferInstanceAs (Decidable (_ ∨ _))

/-- What `toLowerCase` makes of such a letter. The long s is a small letter of its own. -/
def lowerUnit (u : ℕ) : ℕ :=
  if 65 ≤ u ∧ u ≤ 90 ∨ u ∈ [0xC4, 0xD6, 0xDC] then u + 32 else if u = 0x212A then 107 else u

/-- `toLowerCase`. -/
structure Casing where
  lower : Text → Text
  plain : ∀ t, (∀ u ∈ t, IsPlain u) → lower t = t.map lowerUnit

section
variable (c : Casing)

/-- `BY_SPELLING`, with the entries that are set over. -/
def bySpelling : List (Text × TableUnit) := table.flatMap fun unit => unit.spellings.map fun s => (c.lower s, unit)

/-- `unitOf`. -/
def unitOf (spelling : Text) : Option TableUnit :=
  (Keyed.last Prod.fst (bySpelling c) (c.lower (Shopping.trim spelling))).map Prod.snd

/-- `namedTotal`. -/
def namedTotal (unit : TableUnit) (firstSpelling : Text) (value : ℚ) : Text :=
  let one := match unit.spellings.findIdx? (c.lower · = c.lower firstSpelling) with
    | some index => index - index % 2
    | none => 0
  if value = 1 then unit.spellings.getD one [] else unit.spellings.getD (one + 1) []

/-- The alternatives of `UNIT_PATTERN`, the longest first. -/
def unitWords : List Text :=
  ((bySpelling c).map Prod.fst).eraseDups.mergeSort fun a b => b.length ≤ a.length

/-! ## What is typed -/

/-- A letter as the flags `iu` compare it. -/
def foldUnit (u : ℕ) : ℕ := if u = 0x17F then 115 else lowerUnit u

/-- A word, under the flags `iu`. -/
def word (t : Text) : Regex ℕ := seqs (t.map fun a => chr fun u => foldUnit u == foldUnit a)

/-- `^`. -/
def start : Regex ℕ := look fun before _ => before.isNone

/-- `$`. -/
def finish : Regex ℕ := look fun _ behind => behind.isNone

/-- `[.,]`. -/
def isPoint (u : ℕ) : Bool := u = 46 || u = 44

/-- What `.` matches. -/
def isDot (u : ℕ) : Bool := u ∉ [10, 13, 0x2028, 0x2029]

/-- `\d+(?:[.,]\d+)?`. -/
def numeral : Regex ℕ := seq (plus isDigit) (opt (seq (chr isPoint) (plus isDigit)))

/-- `LEADING_AMOUNT`. -/
def leadingAmount : Regex ℕ :=
  seqs [start,
    group 1 (seqs [numeral, spaces,
      opt (seq (alts ((unitWords c).map word)) (look fun _ behind => behind.any Shopping.isSpace))]),
    plus Shopping.isSpace, group 2 (plus isDot), finish]

/-- `parseIngredient`: the name and the amount. -/
def parseIngredient (text : Text) : Option (Text × Option Text) :=
  let trimmed := Shopping.trim text
  if trimmed = [] then none
  else match exec (leadingAmount c) trimmed with
    | some m => some (Shopping.trim ((m.cap 2).getD []), some (Shopping.trim ((m.cap 1).getD [])))
    | none => some (trimmed, none)

/-! ## Adding up -/

/-- `AMOUNT`. -/
def amountPattern : Regex ℕ :=
  seqs [start, group 1 numeral, spaces, group 2 (.star true isDot), finish]

/-- `replace(',', '.')`: the first comma. -/
def pointed (t : Text) : Text :=
  match t.dropWhile (· ≠ 44) with
  | [] => t
  | _ :: rest => t.takeWhile (· ≠ 44) ++ 46 :: rest

/-- The number and the spelling of an amount, where it is a number. -/
def numberOf (amount : Text) : Option (ℚ × Text) :=
  (exec amountPattern amount).map fun m =>
    ((number (pointed ((m.cap 1).getD []))).getD 0, Shopping.trim ((m.cap 2).getD []))

/-- The unit of a spelling, pieces where there is none. -/
def unitFor (spelling : Text) : Option TableUnit :=
  if spelling = [] then unitOf c (units "Stk.") else unitOf c spelling

/-- The keys of `totals`. -/
inductive Key where
  | text (n : ℕ)
  | word (lower : Text)
  | named (id : String)
  | family (f : UnitFamily)
  deriving DecidableEq

/-- The key of a number with a spelling. -/
def keyOf (spelling : Text) : Key :=
  match unitFor c spelling with
  | none => .word (c.lower spelling)
  | some unit => if unit.family = .named then .named unit.id else .family unit.family

/-- How much of the base one of the unit is. -/
def factorOf (spelling : Text) : ℚ := (unitFor c spelling).elim 1 (·.factor)

/-- `Running`. -/
structure Running where
  unit : Option TableUnit
  base : ℚ
  spelling : Text

/-- What stands in `totals`. -/
inductive Entry where
  | running (r : Running)
  | text (t : Text)

/-- `AmountTotal`. -/
inductive AmountTotal where
  | amount (value : ℚ) (unit : Text)
  | text (t : Text)
  deriving DecidableEq

/-- `scaled`. -/
def scaled (base factor : ℚ) : ℚ := ⌊base / factor * 100 + 1 / 2⌋ / 100

/-- `display`. -/
def display (family : UnitFamily) (base : ℚ) : AmountTotal :=
  match family with
  | .mass => if 1000 ≤ base then .amount (scaled base 1000) (units "kg") else .amount (scaled base 1) (units "g")
  | .volume =>
    if 1000 ≤ base then .amount (scaled base 1000) (units "l")
    else if 100 ≤ base then .amount (scaled base 100) (units "dl") else .amount (scaled base 1) (units "ml")
  | _ => .amount (scaled base 1) []

/-- The body of the loop of `sumAmounts`. -/
def addAmount (totals : List (Key × Entry)) (raw : Option Text) : List (Key × Entry) :=
  let amount := Shopping.trim (raw.getD [])
  if amount = [] then totals
  else match numberOf amount with
    | none => Grouping.upsert (.text amount) (fun _ => .text amount) (.text totals.length) totals
    | some (value, spelling) =>
      let first : Entry := .running ⟨unitFor c spelling, value * factorOf c spelling, spelling⟩
      Grouping.upsert first
        (fun known => match known with
          | .running r => .running { r with base := r.base + value * factorOf c spelling }
          | .text _ => first)
        (keyOf c spelling) totals

/-- How an entry is reported. -/
def report : Entry → AmountTotal
  | .text t => .text t
  | .running ⟨none, base, spelling⟩ => .amount (scaled base 1) spelling
  | .running ⟨some unit, base, spelling⟩ =>
    if unit.family = .named then .amount (scaled base 1) (namedTotal c unit spelling (scaled base 1))
    else display unit.family base

/-- `sumAmounts`. -/
def sumAmounts (amounts : List (Option Text)) : List AmountTotal :=
  (amounts.foldl (addAmount c) []).map fun e => report c e.2

end

end Amounts

end JitPack
