import JitPack.Lib.Occurrences
import JitPack.Notify.Rules

/-!
# Who a comment mentions

What `mentionTargets` of `internal/notify/rules.go` answers, read on characters. The scan runs over the bytes of the
lower-cased body; an `@` is a byte of its own, so it meets the occurrences of `@name` character by character
(`mentions_eq`), from the left and without overlaps. It then asks `isNameRune` of a single byte, which it reads as
Latin-1: of a character outside ASCII that is the first byte, and every such byte counts as a letter but 0xD7, the
one that U+05C0 to U+05FF start with (`isNameRune_lead`). `mentionTargets_iff` says which bodies come out right.
-/

namespace JitPack

namespace Mentions

open Occurrences

/-! ## Texts and their bytes -/

variable {c : Char} {cs ds name lower text : List Char}

@[simp] theorem utf8_nil : utf8 [] = [] := rfl

@[simp] theorem utf8_cons : utf8 (c :: cs) = String.utf8EncodeChar c ++ utf8 cs := rfl

@[simp] theorem utf8_append : utf8 (cs ++ ds) = utf8 cs ++ utf8 ds := List.flatMap_append ..

theorem encode_at : String.utf8EncodeChar '@' = [64] := by decide

theorem encode_ne_nil : String.utf8EncodeChar c ≠ [] := by
  intro h
  have hlen := String.length_utf8EncodeChar c
  rw [h, List.length_nil] at hlen
  exact absurd hlen.symm (Char.utf8Size_pos c).ne'

/-- No character's bytes start another's. -/
theorem encode_inj {d : Char} {x y : List UInt8}
    (h : String.utf8EncodeChar c ++ x = String.utf8EncodeChar d ++ y) : c = d := by
  have hc := ByteArray.utf8DecodeChar?_utf8EncodeChar_append (b := x.toByteArray) (c := c)
  have hd := ByteArray.utf8DecodeChar?_utf8EncodeChar_append (b := y.toByteArray) (c := d)
  rw [← List.toByteArray_append] at hc hd
  rw [h, hd] at hc
  exact (Option.some.inj hc).symm

theorem utf8_prefix_iff : utf8 cs <+: utf8 ds ↔ cs <+: ds := by
  induction cs generalizing ds with
  | nil => simp
  | cons c cs ih =>
    cases ds with
    | nil => simp
    | cons d ds =>
      rw [utf8_cons, utf8_cons, List.cons_prefix_cons]
      constructor
      · rintro ⟨x, hx⟩
        rw [List.append_assoc] at hx
        obtain rfl := encode_inj hx
        exact ⟨rfl, ih.1 ⟨x, List.append_cancel_left hx⟩⟩
      · rintro ⟨rfl, h⟩
        exact (List.prefix_append_right_inj _).2 (ih.2 h)

theorem toNat_lt (c : Char) : c.toNat < 0x110000 := by
  have hvalid : c.toNat.isValidChar := c.valid
  rw [Nat.isValidChar] at hvalid
  omega

/-- The byte of `@` stands in no other character. -/
theorem eq_at_of_mem_encode (h : (64 : UInt8) ∈ String.utf8EncodeChar c) : c = '@' := by
  have hval := toNat_lt c
  have hbyte : c.toNat = 64 := by
    unfold String.utf8EncodeChar at h
    simp only [Char.toNat_val] at h
    split_ifs at h <;> simp only [List.mem_cons, List.not_mem_nil, or_false, ← UInt8.toNat_inj, UInt8.toNat_ofNat',
      UInt8.reduceToNat] at h <;> omega
  exact Char.ext (UInt32.toNat_inj.1 hbyte)

/-- U+05C0 to U+05FF, whose bytes start with 0xD7: Hebrew letters among them. -/
def InHebrew (c : Char) : Prop := 0x5C0 ≤ c.toNat ∧ c.toNat ≤ 0x5FF

instance : DecidablePred InHebrew := fun _ => inferInstanceAs (Decidable (_ ∧ _))

/-- A letter or a digit of ASCII. -/
def IsAsciiName (c : Char) : Prop := isNameRune (UInt8.ofNat c.toNat) = true

/-- `isNameRune` of a character's first byte. -/
theorem isNameRune_lead {b : UInt8} {bs : List UInt8} (h : String.utf8EncodeChar c = b :: bs) :
    isNameRune b = false ↔ (c.toNat < 128 ∧ ¬ IsAsciiName c) ∨ InHebrew c := by
  have hval := toNat_lt c
  unfold String.utf8EncodeChar at h
  simp only [Char.toNat_val] at h
  split_ifs at h with h1 h2 h3
  · obtain ⟨rfl, -⟩ := List.cons.inj h
    have hlow : c.toNat < 128 := by omega
    have hheb : ¬ InHebrew c := fun hh => by have := hh.1; omega
    simp [hlow, hheb, IsAsciiName]
  all_goals
    obtain ⟨rfl, -⟩ := List.cons.inj h
    have hlow : ¬ c.toNat < 128 := by omega
    simp only [isNameRune, UInt8.toNat_ofNat', InHebrew, hlow, false_and, false_or, Bool.or_eq_false_iff,
      Bool.and_eq_false_iff, decide_eq_false_iff_not]
    omega

/-! ## The scan -/

/-- What stands behind the first place that `strings.Index` finds, and behind the ones after it. -/
theorem rests_indexOf {needle : List UInt8} (hn : needle ≠ []) (bytes : List UInt8) :
    rests needle bytes =
      match indexOf needle bytes with
      | none => []
      | some i => bytes.drop (i + needle.length) :: rests needle (bytes.drop (i + needle.length)) := by
  induction bytes with
  | nil => simp [indexOf, hn]
  | cons b bs ih =>
    rw [indexOf]
    split_ifs with hpre
    · obtain ⟨post, hpost⟩ := List.isPrefixOf_iff_prefix.1 hpre
      have hdrop : (b :: bs).drop needle.length = post := by rw [← hpost, List.drop_left]
      rw [rests_at hn hpost]
      simp only [Nat.zero_add, hdrop]
    · rw [rests_cons_of_not fun h => hpre (List.isPrefixOf_iff_prefix.2 h), ih]
      cases indexOf needle bs with
      | none => rfl
      | some i => simp [Nat.add_right_comm]

/-- What the scan asks of what stands behind an occurrence. -/
def endsName : List UInt8 → Bool
  | [] => true
  | b :: _ => !isNameRune b

theorem mentions_eq_any (name lower : List UInt8) :
    mentions name lower = (rests (64 :: name) lower).any endsName := by
  fun_induction mentions name lower with
  | case1 lower hnone =>
    rw [rests_indexOf (by simp) lower]
    simp only [hnone, List.any_nil]
  | case2 lower i hsome hrest =>
    have hdrop : lower.drop (i + (64 :: name).length) = [] := by
      rw [← hrest, List.length_cons, Nat.add_assoc, Nat.add_comm 1]
    rw [rests_indexOf (by simp) lower]
    simp only [hsome, hdrop, List.any_cons, endsName, Bool.true_or]
  | case3 lower i hsome b rest hrest ih =>
    have hdrop : lower.drop (i + (64 :: name).length) = b :: rest := by
      rw [← hrest, List.length_cons, Nat.add_assoc, Nat.add_comm 1]
    rw [rests_indexOf (by simp) lower]
    simp only [hsome, hdrop, List.any_cons, endsName, ih]

/-- Character by character the scan meets the same occurrences. -/
theorem rests_utf8 (name text : List Char) :
    rests (utf8 ('@' :: name)) (utf8 text) = (rests ('@' :: name) text).map utf8 := by
  have hne : utf8 ('@' :: name) ≠ [] := by simp [encode_at]
  induction hlen : text.length using Nat.strong_induction_on generalizing text with
  | _ n ih =>
    subst hlen
    cases text with
    | nil => rfl
    | cons c cs =>
      by_cases hpre : '@' :: name <+: c :: cs
      · obtain ⟨post, hpost⟩ := hpre
        have hbytes : utf8 ('@' :: name) ++ utf8 post = utf8 (c :: cs) := by rw [← utf8_append, hpost]
        have hlt : post.length < (c :: cs).length := by
          rw [← hpost, List.length_append, List.length_cons]
          omega
        rw [rests_at hne hbytes, rests_at (by simp) hpost, List.map_cons, ih _ hlt post rfl]
      · have hnot : ∀ s, s <:+ String.utf8EncodeChar c → s ≠ [] → ¬ utf8 ('@' :: name) <+: s ++ utf8 cs := by
          intro s hs hsne hstart
          -- the needle starts with the byte of `@`, so `c` is `@` and the occurrence is one of characters
          obtain ⟨b, s, rfl⟩ := List.exists_cons_of_ne_nil hsne
          obtain rfl : b = 64 := by
            rw [utf8_cons, encode_at] at hstart
            exact (List.cons_prefix_cons.1 hstart).1.symm
          obtain rfl := eq_at_of_mem_encode (hs.subset List.mem_cons_self)
          rw [encode_at] at hs
          obtain rfl : s = [] := by simpa using hs.length_le
          rw [← encode_at, ← utf8_cons] at hstart
          exact hpre (utf8_prefix_iff.1 hstart)
        rw [rests_cons_of_not hpre, ← ih _ (by simp) cs rfl]
        exact rests_append_of_not hnot

/-- What stands behind an occurrence lets the scan take it: nothing, a character of ASCII that is neither letter nor
digit, or any character whose bytes start with 0xD7. -/
def Taken : List Char → Prop
  | [] => True
  | c :: _ => (c.toNat < 128 ∧ ¬ IsAsciiName c) ∨ InHebrew c

theorem endsName_utf8 (post : List Char) : endsName (utf8 post) = true ↔ Taken post := by
  cases post with
  | nil => simp [endsName, Taken]
  | cons c cs =>
    obtain ⟨b, bs, hb⟩ := List.exists_cons_of_ne_nil (encode_ne_nil (c := c))
    rw [utf8_cons, hb, List.cons_append, endsName, Bool.not_eq_true', isNameRune_lead hb, Taken]

/-- The scan answers yes where it takes one of the occurrences it meets. -/
theorem mentions_iff (name text : List Char) :
    mentions (utf8 name) (utf8 text) = true ↔ ∃ post ∈ rests ('@' :: name) text, Taken post := by
  have hneedle : 64 :: utf8 name = utf8 ('@' :: name) := by rw [utf8_cons, encode_at, List.singleton_append]
  rw [mentions_eq_any, hneedle, rests_utf8]
  simp [endsName_utf8]

/-! ## What a mention is -/

/-- What `package unicode` says of a character. -/
structure Unicode where
  toLower : Char → Char
  isLetter : Char → Bool
  isDigit : Char → Bool
  latin : ∀ c, c.toNat < 256 → (isLetter c || isDigit c) = isNameRune (UInt8.ofNat c.toNat)
  toLower_at : ∀ c, toLower c = '@' ↔ c = '@'
  toLower_name : ∀ c, (isLetter (toLower c) || isDigit (toLower c)) = (isLetter c || isDigit c)

namespace Unicode

variable (u : Unicode)

/-- A letter or a digit. -/
def IsName (c : Char) : Prop := (u.isLetter c || u.isDigit c) = true

/-- A name ends before `post`. -/
def Ends : List Char → Prop
  | [] => True
  | c :: _ => ¬ u.IsName c

/-- `@name` stands in the body, in whatever case, and ends there. -/
def Mentioned (name body : List Char) : Prop :=
  ∃ pre place post, body = pre ++ '@' :: (place ++ post) ∧ place.map u.toLower = name.map u.toLower ∧ u.Ends post

/-- What stands behind the occurrences that the scan meets. -/
def met (name body : List Char) : List (List Char) :=
  rests ('@' :: name.map u.toLower) (body.map u.toLower)

/-- The scan misses the name: it ends somewhere, but wherever the scan meets it there follows a letter, a digit or
another character outside ASCII and outside U+05C0 to U+05FF. -/
def Missed (name body : List Char) : Prop := u.Mentioned name body ∧ ∀ post ∈ u.met name body, ¬ Taken post

/-- The scan takes a longer name for this one: it ends nowhere, but once there follows a letter or a digit of U+05C0
to U+05FF. -/
def Misread (name body : List Char) : Prop :=
  ¬ u.Mentioned name body ∧ ∃ c cs, c :: cs ∈ u.met name body ∧ InHebrew c ∧ u.IsName c

variable {u} {name body : List Char}

@[simp] theorem ends_map_toLower {post : List Char} : u.Ends (post.map u.toLower) ↔ u.Ends post := by
  cases post with
  | nil => exact Iff.rfl
  | cons c cs => simp only [List.map_cons, Ends, IsName, u.toLower_name]

theorem mentioned_iff_lower : u.Mentioned name body ↔
    ∃ pre post, body.map u.toLower = pre ++ ('@' :: name.map u.toLower ++ post) ∧ u.Ends post := by
  constructor
  · rintro ⟨pre, place, post, rfl, hplace, hends⟩
    have hat : u.toLower '@' = '@' := (u.toLower_at _).2 rfl
    exact ⟨pre.map u.toLower, post.map u.toLower, by simp [hplace, hat], ends_map_toLower.2 hends⟩
  · rintro ⟨pre, post, hbody, hends⟩
    obtain ⟨pre, behind, rfl, rfl, hbehind⟩ := List.map_eq_append_iff.1 hbody
    obtain ⟨front, post, rfl, hfront, rfl⟩ := List.map_eq_append_iff.1 hbehind
    obtain ⟨c, place, rfl, hc, hplace⟩ := List.map_eq_cons_iff.1 hfront
    obtain rfl := (u.toLower_at c).1 hc
    exact ⟨pre, place, post, rfl, hplace, ends_map_toLower.1 hends⟩

/-- What is taken and no letter or digit of U+05C0 to U+05FF ends the name. -/
theorem Ends.of_taken {post : List Char} (h : Taken post) (hheb : ∀ c cs, post = c :: cs → InHebrew c → ¬ u.IsName c) :
    u.Ends post := by
  cases post with
  | nil => trivial
  | cons c cs =>
    obtain ⟨hlow, hname⟩ | h := h
    · rw [Ends, IsName, u.latin c (by omega)]
      exact hname
    · exact hheb c cs rfl h

/-- For one name the scan is right unless it misses it or misreads a longer one. -/
theorem mentions_right_iff :
    (mentions (utf8 (name.map u.toLower)) (utf8 (body.map u.toLower)) = true ↔ u.Mentioned name body) ↔
      ¬ u.Missed name body ∧ ¬ u.Misread name body := by
  rw [mentions_iff]
  constructor
  · intro h
    refine ⟨fun ⟨hm, hmiss⟩ => ?_, fun ⟨hm, c, cs, hmem, hheb, _⟩ => hm (h.1 ⟨_, hmem, Or.inr hheb⟩)⟩
    obtain ⟨post, hpost, htaken⟩ := h.2 hm
    exact hmiss post hpost htaken
  · rintro ⟨hmiss, hmis⟩
    constructor
    · rintro ⟨post, hpost, htaken⟩
      by_contra hm
      have hends : u.Ends post := .of_taken htaken fun c cs hc hheb hname =>
        hmis ⟨hm, c, cs, hc ▸ hpost, hheb, hname⟩
      obtain ⟨pre, hpre⟩ := exists_of_mem_rests (by simp) hpost
      exact hm (mentioned_iff_lower.2 ⟨pre, post, hpre, hends⟩)
    · intro hm
      by_contra hnone
      exact hmiss ⟨hm, fun post hpost htaken => hnone ⟨post, hpost, htaken⟩⟩

/-- Exactly the members whose name the body mentions are answered, each once. -/
def Right (u : Unicode) (body : String) (members : Members) : Prop :=
  (mentionTargets u.toLower body members.list).Nodup ∧
    ∀ id, id ∈ mentionTargets u.toLower body members.list ↔
      ∃ m ∈ members.list, m.userID = id ∧ m.displayName ≠ "" ∧ u.Mentioned m.displayName.toList body.toList

theorem nodup_mentionTargets (toLower : Char → Char) (body : String) (members : Members) :
    (mentionTargets toLower body members.list).Nodup :=
  members.unique.sublist (List.filter_sublist.map _)

theorem userID_mem_mentionTargets {body : String} {members : Members} {m : MemberName} (hm : m ∈ members.list) :
    m.userID ∈ mentionTargets u.toLower body members.list ↔
      m.displayName ≠ "" ∧
        mentions (utf8 (m.displayName.toList.map u.toLower)) (utf8 (body.toList.map u.toLower)) = true := by
  have hinj := List.inj_on_of_nodup_map members.unique
  simp only [mentionTargets, List.mem_map, List.mem_filter, Bool.and_eq_true, decide_eq_true_eq]
  constructor
  · rintro ⟨m', ⟨hm', h⟩, he⟩
    exact hinj hm' hm he ▸ h
  · exact fun h => ⟨m, ⟨hm, h⟩, rfl⟩

/-- A right answer is right for each name. -/
theorem Right.scan {body : String} {members : Members} {m : MemberName} (h : u.Right body members)
    (hm : m ∈ members.list) (hne : m.displayName ≠ "") :
    mentions (utf8 (m.displayName.toList.map u.toLower)) (utf8 (body.toList.map u.toLower)) = true ↔
      u.Mentioned m.displayName.toList body.toList := by
  have hmem : m.userID ∈ mentionTargets u.toLower body members.list ↔ _ := userID_mem_mentionTargets hm
  have hid := hmem.symm.trans (h.2 m.userID)
  constructor
  · intro hyes
    obtain ⟨m', hmem, he, -, hment⟩ := hid.1 ⟨hne, hyes⟩
    exact List.inj_on_of_nodup_map members.unique hmem hm he ▸ hment
  · exact fun hment => (hid.2 ⟨m, hm, rfl, hne, hment⟩).2

/-- `mentionTargets` is right exactly where no name is missed and none misread. -/
theorem mentionTargets_right_iff (u : Unicode) (body : String) (members : Members) :
    u.Right body members ↔ ∀ m ∈ members.list, m.displayName ≠ "" →
      ¬ u.Missed m.displayName.toList body.toList ∧ ¬ u.Misread m.displayName.toList body.toList := by
  constructor
  · exact fun h m hm hne => mentions_right_iff.1 (h.scan hm hne)
  · intro h
    refine ⟨nodup_mentionTargets .., fun id => ⟨fun hid => ?_, ?_⟩⟩
    · obtain ⟨m, hm, rfl⟩ := List.mem_map.1 (PushRules.mentionTargets_subset hid)
      obtain ⟨hne, hyes⟩ := (userID_mem_mentionTargets hm).1 hid
      exact ⟨m, hm, rfl, hne, (mentions_right_iff.2 (h m hm hne)).1 hyes⟩
    · rintro ⟨m, hm, rfl, hne, hment⟩
      exact (userID_mem_mentionTargets hm).2 ⟨hne, (mentions_right_iff.2 (h m hm hne)).2 hment⟩

/-- Latin-1 and the Hebrew letters, in small letters. -/
def sample : Unicode where
  toLower := id
  isLetter c :=
    if c.toNat < 256 then isNameRune (UInt8.ofNat c.toNat) && !c.isDigit else 0x5D0 ≤ c.toNat && c.toNat ≤ 0x5EA
  isDigit := Char.isDigit
  latin c hc := by
    by_cases hd : c.isDigit = true
    · have hrange : 48 ≤ c.toNat ∧ c.toNat ≤ 57 := by
        simpa [Char.isDigit, UInt32.le_iff_toNat_le] using hd
      have hrune : isNameRune (UInt8.ofNat c.toNat) = true := by
        simp [isNameRune, Nat.mod_eq_of_lt hc, hrange]
      simp [hd, hrune]
    · simp [hc, hd]
  toLower_at _ := Iff.rfl
  toLower_name _ := rfl

/-- With an emoji behind it the name is missed; with a Hebrew letter behind it, a longer name is misread. -/
theorem andy_missed_andy_misread :
    ¬ sample.Right "@andy👍" ⟨[⟨"u1", "andy"⟩], List.nodup_singleton _⟩ ∧
      ¬ sample.Right "@andyב" ⟨[⟨"u1", "andy"⟩], List.nodup_singleton _⟩ := by
  have hname : "andy".toList = ['a', 'n', 'd', 'y'] := by simp
  constructor <;> intro h
  · have hbody : "@andy👍".toList = ['@', 'a', 'n', 'd', 'y', '👍'] := by simp
    have hment : sample.Mentioned "andy".toList "@andy👍".toList := by
      rw [hname, hbody]
      exact ⟨[], ['a', 'n', 'd', 'y'], ['👍'], rfl, rfl, by simp [Ends, IsName, sample, Char.isDigit]⟩
    have hyes := (h.scan List.mem_cons_self (by decide)).2 hment
    simp only [sample, List.map_id_fun, id_eq, hname, hbody] at hyes
    obtain ⟨post, hpost, htaken⟩ := (mentions_iff _ _).1 hyes
    have hrests : rests ['@', 'a', 'n', 'd', 'y'] ['@', 'a', 'n', 'd', 'y', '👍'] = [['👍']] := by decide
    rw [hrests, List.mem_singleton] at hpost
    subst hpost
    simp [Taken, InHebrew] at htaken
  · have hbody : "@andyב".toList = ['@', 'a', 'n', 'd', 'y', 'ב'] := by simp
    have hrests : rests ['@', 'a', 'n', 'd', 'y'] ['@', 'a', 'n', 'd', 'y', 'ב'] = [['ב']] := by decide
    have hscan : mentions (utf8 ("andy".toList.map sample.toLower)) (utf8 ("@andyב".toList.map sample.toLower)) =
        true := by
      simp only [sample, List.map_id_fun, id_eq, hname, hbody]
      exact (mentions_iff _ _).2 ⟨['ב'], by simp [hrests], by simp [Taken, InHebrew]⟩
    obtain ⟨pre, post, hpost, hends⟩ := mentioned_iff_lower.1 ((h.scan List.mem_cons_self (by decide)).1 hscan)
    simp only [sample, List.map_id_fun, id_eq, hname, hbody] at hpost
    cases pre with
    | nil =>
      obtain rfl : ['ב'] = post := by simpa using hpost
      exact hends (by simp [IsName, sample])
    | cons c pre =>
      have hat : '@' ∈ ['a', 'n', 'd', 'y', 'ב'] := by
        rw [(List.cons.inj hpost).2]
        simp
      exact absurd hat (by decide)

end Unicode

end Mentions

end JitPack
