import JitPack.Lib.Regex
import JitPack.Client.Numeral
import JitPack.Client.Route
import JitPack.Client.RouteEditor

/-!
# Tracks as GPX files

`writeGpx` of `route.ts`, which writes an edited route as a file, and `parseGpx` and `guessKind` of `track.ts`, which
read a file. The writer is a template of texts and the reader a handful of patterns, each run over the text as
`Lib.Regex` runs it. What reads is a partial function: `String.fromCodePoint` throws for what is no code point.

`GpxFile` proves that what the writer wrote is read back.
-/

namespace JitPack

namespace Gpx

open Shopping (Text)
open Numeral
open Regex

/-- The code units of a literal. -/
def units (s : String) : Text := s.toList.map Char.toNat

/-! ## Writing -/

/-- `replace` of every one of a code unit. -/
def substitute (unit : ℕ) (by' : Text) (text : Text) : Text := text.flatMap fun u => if u = unit then by' else [u]

/-- `escapeXml`. -/
def escapeXml (value : Text) : Text :=
  substitute 34 (units "&quot;") (substitute 62 (units "&gt;") (substitute 60 (units "&lt;")
    (substitute 38 (units "&amp;") value)))

/-- `GPX_TYPE`. -/
def gpxType : TrackKind → Text
  | .hike => units "hiking"
  | .bike => units "cycling"

section
variable (toString : ℤ → Text)

/-- The row of a point. -/
def row (p : RoutePoint Double) : Text :=
  let ele := match p.ele with
    | none => []
    | some ele => units "<ele>" ++ toFixed toString 1 ele ++ units "</ele>"
  units "<trkpt lat=\"" ++ toFixed toString 7 p.lat ++ units "\" lon=\"" ++ toFixed toString 7 p.lon ++ units "\">" ++
    ele ++ units "</trkpt>"

/-- `writeGpx`. -/
def writeGpx (name : Text) (kind : TrackKind) (points : List (RoutePoint Double)) : Text :=
  [10].intercalate (
    [units "<?xml version=\"1.0\" encoding=\"UTF-8\"?>",
      units "<gpx version=\"1.1\" creator=\"JIT-Pack\" xmlns=\"http://www.topografix.com/GPX/1/1\">",
      units "<trk><name>" ++ escapeXml name ++ units "</name><type>" ++ gpxType kind ++ units "</type><trkseg>"] ++
    points.map (row toString) ++ [units "</trkseg></trk>", units "</gpx>", []])

end

/-! ## Patterns -/

/-- A letter as the flag `i` compares it. -/
def fold (u : ℕ) : ℕ := if 97 ≤ u ∧ u ≤ 122 then u - 32 else u

/-- A literal, under the flag `i`. -/
def lit (s : String) : Regex ℕ := seqs ((units s).map fun a => chr fun u => fold u == fold a)

/-- `\w`. -/
def isWord (u : ℕ) : Bool := isDigit u || (65 ≤ u && u ≤ 90) || (97 ≤ u && u ≤ 122) || u = 95

/-- `\b`. -/
def bound : Regex ℕ := look fun before behind => before.any isWord != behind.any isWord

/-- `\s*`. -/
def spaces : Regex ℕ := star true Shopping.isSpace

/-- `[\s\S]*?`. -/
def anything : Regex ℕ := star false fun _ => true

/-- `^\s*<!\[CDATA\[([\s\S]*?)\]\]>\s*$`. -/
def cdata : Regex ℕ :=
  seqs [look fun before _ => before.isNone, spaces, lit "<![CDATA[", group 1 anything, lit "]]>", spaces,
    look fun _ behind => behind.isNone]

/-- `[0-9a-f]`, under the flag `i`. -/
def isHex (u : ℕ) : Bool := isDigit u || (65 ≤ u && u ≤ 70) || (97 ≤ u && u ≤ 102)

/-- `&(#x[0-9a-f]+|#\d+|\w+);`. -/
def entity : Regex ℕ :=
  seqs [lit "&", group 1 (alts [seq (lit "#x") (plus isHex), seq (lit "#") (plus isDigit), plus isWord]), lit ";"]

/-- `<tag\b[^>]*>([\s\S]*?)</tag\s*>`. -/
def element (tag : String) : Regex ℕ :=
  seqs [lit "<", lit tag, bound, star true (· != 62), lit ">", group 1 anything, lit "</", lit tag, spaces, lit ">"]

def isQuote (u : ℕ) : Bool := u = 34 || u = 39

/-- `\bname\s*=\s*["']([^"']*)["']`. -/
def assigned (name : String) : Regex ℕ :=
  seqs [bound, lit name, spaces, lit "=", spaces, chr isQuote, group 1 (star true (!isQuote ·)), chr isQuote]

/-- `<container\b`. -/
def opens (container : String) : Regex ℕ := seqs [lit "<", lit container, bound]

/-- `</tag\s*>`. -/
def closes (tag : String) : Regex ℕ := seqs [lit "</", lit tag, spaces, lit ">"]

/-- `<tag\b([^>]*?)(?:/>|>([\s\S]*?)</tag\s*>)`. -/
def point (tag : String) : Regex ℕ :=
  seqs [lit "<", lit tag, bound, group 1 (star false (· != 62)),
    alts [lit "/>", seqs [lit ">", group 2 anything, closes tag]]]

/-- `<tag\b[\s\S]*?(?:<first\b|</tag\s*>)`. -/
def ownerOf (tag first : String) : Regex ℕ := seqs [opens tag, anything, alts [opens first, closes tag]]

/-- `<metadata\b[\s\S]*?</metadata\s*>`. -/
def metadata : Regex ℕ := seqs [opens "metadata", anything, closes "metadata"]

/-! ## Reading -/

/-- `ENTITIES`, with what its prototype answers to a name in small letters. -/
def entities (name : Text) : Option Text :=
  if name = units "amp" then some [38] else if name = units "lt" then some [60] else if name = units "gt" then some [62]
  else if name = units "quot" then some [34] else if name = units "apos" then some [39]
  else if name = units "constructor" then some (units "function Object() \x7b [native code] \x7d")
  else if name = units "__proto__" then some (units "[object Object]") else none

/-- `String.fromCodePoint`, which throws above U+10FFFF. -/
def fromCodePoint (n : ℕ) : Option Text :=
  if n < 0x10000 then some [n]
  else if n ≤ 0x10FFFF then some [0xD800 + (n - 0x10000) / 0x400, 0xDC00 + (n - 0x10000) % 0x400]
  else none

/-- `toLowerCase`, of letters of `\w`. -/
def toLowerCase (text : Text) : Text := text.map fun u => if 65 ≤ u ∧ u ≤ 90 then u + 32 else u

/-- What a match of `entity` is replaced by. A number of this size is `Infinity`. -/
def decoded (m : Found ℕ) : Option Text :=
  let code := (m.cap 1).getD []
  match code with
  | 35 :: digits =>
    let n := match digits with
      | 120 :: hex | 88 :: hex => FixedWidth.value 16 (hex.map digitOf)
      | _ => natOf digits
    if n < 2 ^ 1024 - 2 ^ 970 then fromCodePoint n else some m.whole
  | _ => some ((entities (toLowerCase code)).getD m.whole)

/-- `text`. -/
def text (raw : Text) : Option Text :=
  match exec cdata raw with
  | some m => some (Shopping.trim ((m.cap 1).getD []))
  | none => (replace entity decoded raw).map Shopping.trim

/-- `child`. -/
def child (xml : Text) (tag : String) : Option (Option Text) :=
  match exec (element tag) xml with
  | none => some none
  | some m => (text ((m.cap 1).getD [])).map fun value => if value = [] then none else some value

/-- `attribute`. -/
def attributeOf (attrs : Text) (name : String) : Option ℚ :=
  (exec (assigned name) attrs).bind fun m => number ((m.cap 1).getD [])

/-- `TrackPoint`, its height and its time unknown where there is none. -/
structure TrackPoint extends RoutePoint ℚ where
  time : Option ℤ
  segment : ℕ

section
variable (dateParse : Text → Option ℤ)

/-- The body of the loop over the matches of a part: the point, where the match is one. -/
def pointOf (segment : ℕ) (m : Found ℕ) : Option (Option TrackPoint) :=
  let attrs := (m.cap 1).getD []
  match attributeOf attrs "lat", attributeOf attrs "lon" with
  | some lat, some lon =>
    if 90 < |lat| ∨ 180 < |lon| then some none
    else do
      let body := (m.cap 2).getD []
      let ele ← child body "ele"
      let time ← child body "time"
      return some ⟨⟨⟨lat, lon⟩, ele.bind number⟩, dateParse (time.getD []), segment⟩
  | _, _ => some none

/-- The points of one part. -/
def pointsOf (segment : ℕ) : List (Found ℕ) → Option (List TrackPoint)
  | [] => some []
  | m :: ms => do
    let p ← pointOf dateParse segment m
    let ps ← pointsOf segment ms
    return p.toList ++ ps

/-- The loop of `pointsIn` over the parts. -/
def partsFrom (tag : String) (segment : ℕ) : List Text → Option (List TrackPoint)
  | [] => some []
  | part :: parts => do
    let ps ← pointsOf dateParse segment (matchAll (point tag) part)
    let qs ← partsFrom tag (segment + 1) parts
    return ps ++ qs

/-- `pointsIn`. -/
def pointsIn (xml : Text) (container tag : String) : Option (List TrackPoint) :=
  partsFrom dateParse tag 0 (split (opens container) xml).tail

/-- `ParsedGpx`. -/
structure ParsedGpx where
  points : List TrackPoint
  name : Option Text
  type : Option Text

/-- `parseGpx`; `none` where it throws. -/
def parseGpx (xml : Text) : Option ParsedGpx := do
  let track ← pointsIn dateParse xml "trkseg" "trkpt"
  let (points, owner) ←
    if track = [] then do
      let route ← pointsIn dateParse xml "rte" "rtept"
      pure (route, exec (ownerOf "rte" "rtept") xml)
    else pure (track, exec (ownerOf "trk" "trkseg") xml)
  let own (tag : String) : Option (Option Text) := match owner with
    | none => some none
    | some m => child m.whole tag
  let name ← own "name"
  let name ← if name.isSome then pure name else child (((exec metadata xml).map (·.whole)).getD []) "name"
  return ⟨points, name, ← own "type"⟩

end

/-! ## The kind of a track -/

/-- `/cycl|bik|ride|velo|rad|mtb|gravel/i`. -/
def cycled : Regex ℕ := alts ([ "cycl", "bik", "ride", "velo", "rad", "mtb", "gravel"].map lit)

/-- `/hik|walk|wander|trek|run/i`. -/
def walked : Regex ℕ := alts (["hik", "walk", "wander", "trek", "run"].map lit)

/-- `guessKind`, with `BIKE_PACE_KMH`. The moments of points are milliseconds. -/
def guessKind (type : Option Text) (points : List TrackPoint) (distanceM : ℚ) : TrackKind :=
  if (type.any fun t => t ≠ [] && test cycled t) then .bike
  else if (type.any fun t => t ≠ [] && test walked t) then .hike
  else
    let timed := points.filterMap (·.time)
    let hours : ℚ := (timed.getLastD 0 - timed.headD 0) / 3600000
    if 1 < timed.length ∧ 0 < hours ∧ 9 < distanceM / 1000 / hours then .bike else .hike

end Gpx

end JitPack
