import Mathlib

/-!
# Feeds of changes, read page by page

A writer appends an entry to a feed for each key whose value it changes, and a reader follows the feed by a cursor: it
takes the first entries behind the cursor, at most as many as fit on a page, moves the cursor to the last of them
(`next`), and of those takes over what the last one for each key says (`compact`).

The reader has the writer's value of every key that no entry behind its cursor is about (`UpToDate`). A page keeps that
(`UpToDate.pull`), and so does a write that is announced (`UpToDate.write`), in any order, so a reader that has come to
the end of the feed has all values.
-/

namespace JitPack

namespace Changefeed

variable {α κ ν : Type*} (seq : α → Nat) (key : α → κ)

/-- The entries behind a cursor. -/
def behind (cursor : Nat) (feed : List α) : List α := feed.filter (cursor < seq ·)

/-- The cursor behind a page, or the one it was asked from. -/
def next (cursor : Nat) (page : List α) : Nat := (page.getLast?.map seq).getD cursor

/-- The last entry for each key, in the order of the entries. -/
def compact [DecidableEq κ] (entries : List α) : List α :=
  entries.filter fun e => ((entries.filter (key · = key e)).getLast?.map seq) = some (seq e)

section
variable {seq key} {cursor limit : Nat} {feed entries : List α} {e : α}

theorem mem_behind : e ∈ behind seq cursor feed ↔ e ∈ feed ∧ cursor < seq e := by simp [behind]

theorem sorted_behind (h : feed.Pairwise (seq · < seq ·)) : (behind seq cursor feed).Pairwise (seq · < seq ·) :=
  h.filter _

theorem next_concat : next seq cursor (entries ++ [e]) = seq e := by simp [next]

/-- The last of the entries has the greatest number. -/
theorem le_last (h : entries.Pairwise (seq · < seq ·)) {last : α} (hlast : entries.getLast? = some last)
    (he : e ∈ entries) : seq e ≤ seq last := by
  obtain ⟨front, rfl⟩ := List.getLast?_eq_some_iff.1 hlast
  rcases List.mem_append.1 he with he | he
  · exact ((List.pairwise_append.1 h).2.2 e he last (List.mem_singleton.2 rfl)).le
  · rw [List.mem_singleton.1 he]

theorem cursor_le_next (h : ∀ e ∈ entries, cursor < seq e) : cursor ≤ next seq cursor entries := by
  rcases List.eq_nil_or_concat entries with rfl | ⟨front, last, rfl⟩
  · exact le_rfl
  · rw [List.concat_eq_append, next_concat]
    exact (h last (by simp)).le

theorem le_next (h : entries.Pairwise (seq · < seq ·)) (he : e ∈ entries) : seq e ≤ next seq cursor entries := by
  rcases List.eq_nil_or_concat entries with rfl | ⟨front, last, rfl⟩
  · cases he
  · rw [List.concat_eq_append] at h he ⊢
    rw [next_concat]
    exact le_last h (List.getLast?_concat ..) he

theorem next_le {n : Nat} (hcursor : cursor ≤ n) (h : ∀ e ∈ entries, seq e ≤ n) : next seq cursor entries ≤ n := by
  rcases List.eq_nil_or_concat entries with rfl | ⟨front, last, rfl⟩
  · exact hcursor
  · rw [List.concat_eq_append, next_concat]
    exact h last (by simp)

/-- What is behind a later cursor. -/
theorem behind_of_le {cursor' : Nat} (h : cursor ≤ cursor') :
    behind seq cursor' feed = (behind seq cursor feed).filter (cursor' < seq ·) := by
  rw [behind, behind, List.filter_filter]
  refine List.filter_congr fun e he => ?_
  rw [Bool.eq_iff_iff, Bool.and_eq_true, decide_eq_true_eq, decide_eq_true_eq]
  exact ⟨fun hlt => ⟨hlt, h.trans_lt hlt⟩, fun hlt => hlt.1⟩

/-- **A page steps over nothing**: what was behind the cursor is on the page, or behind the next cursor. -/
theorem behind_eq {page : List α} (h : feed.Pairwise (seq · < seq ·)) (hpage : page <+: behind seq cursor feed) :
    behind seq cursor feed = page ++ behind seq (next seq cursor page) feed := by
  obtain ⟨rest, hrest⟩ := hpage
  have hsorted : (behind seq cursor feed).Pairwise (seq · < seq ·) := sorted_behind h
  rw [← hrest, List.pairwise_append] at hsorted
  obtain ⟨hpage, -, hacross⟩ := hsorted
  have hlt : ∀ e ∈ page ++ rest, cursor < seq e := fun e he => (mem_behind.1 (hrest ▸ he)).2
  have hnext : cursor ≤ next seq cursor page := cursor_le_next fun e he => hlt e (List.mem_append_left _ he)
  rw [behind_of_le hnext, ← hrest, List.filter_append]
  rcases List.eq_nil_or_concat page with rfl | ⟨front, last, rfl⟩
  · rw [List.nil_append, List.filter_nil, List.nil_append]
    exact (List.filter_eq_self.2 fun e he => decide_eq_true (hlt e he)).symm
  rw [List.concat_eq_append] at hpage hacross ⊢
  rw [next_concat, List.filter_eq_nil_iff.2, List.filter_eq_self.2, List.nil_append]
  · exact fun e he => decide_eq_true (hacross last (by simp) e he)
  · intro e he
    rw [decide_eq_true_eq, not_lt]
    exact le_last hpage (List.getLast?_concat ..) he

variable [DecidableEq κ]

/-- The entry for a key that is kept is the last one there is. -/
theorem mem_compact (h : entries.Pairwise (seq · < seq ·)) :
    e ∈ compact seq key entries ↔ e ∈ entries ∧ ∀ e' ∈ entries, key e' = key e → seq e' ≤ seq e := by
  have hsub : (entries.filter (key · = key e)).Pairwise (seq · < seq ·) := h.filter _
  have hmem : ∀ e', e' ∈ entries.filter (key · = key e) ↔ e' ∈ entries ∧ key e' = key e := by simp
  rw [compact, List.mem_filter, decide_eq_true_eq]
  refine and_congr_right fun he => ?_
  obtain ⟨last, hlast⟩ : ∃ last, (entries.filter (key · = key e)).getLast? = some last :=
    Option.isSome_iff_exists.1 (List.getLast?_isSome.2 (List.ne_nil_of_mem ((hmem e).2 ⟨he, rfl⟩)))
  have hin := (hmem last).1 (List.mem_of_getLast? hlast)
  rw [hlast, Option.map_some, Option.some_inj]
  constructor
  · intro heq e' he' hkey
    exact heq ▸ le_last hsub hlast ((hmem e').2 ⟨he', hkey⟩)
  · intro hmax
    exact le_antisymm (hmax last hin.1 hin.2) (le_last hsub hlast ((hmem e).2 ⟨he, rfl⟩))

/-- Each key of the entries has one that is kept. -/
theorem exists_mem_compact (h : entries.Pairwise (seq · < seq ·)) (he : e ∈ entries) :
    ∃ c ∈ compact seq key entries, key c = key e ∧ seq e ≤ seq c := by
  have hsub : (entries.filter (key · = key e)).Pairwise (seq · < seq ·) := h.filter _
  have hmem : ∀ e', e' ∈ entries.filter (key · = key e) ↔ e' ∈ entries ∧ key e' = key e := by simp
  obtain ⟨last, hlast⟩ : ∃ last, (entries.filter (key · = key e)).getLast? = some last :=
    Option.isSome_iff_exists.1 (List.getLast?_isSome.2 (List.ne_nil_of_mem ((hmem e).2 ⟨he, rfl⟩)))
  have hin := (hmem last).1 (List.mem_of_getLast? hlast)
  refine ⟨last, (mem_compact h).2 ⟨hin.1, fun e' he' hkey => ?_⟩, hin.2, le_last hsub hlast ((hmem e).2 ⟨he, rfl⟩)⟩
  exact le_last hsub hlast ((hmem e').2 ⟨he', hkey.trans hin.2⟩)

/-- No key is kept twice. -/
theorem nodup_compact (h : entries.Pairwise (seq · < seq ·)) : ((compact seq key entries).map key).Nodup := by
  have hsorted : (compact seq key entries).Pairwise (seq · < seq ·) := h.filter _
  rw [List.Nodup, List.pairwise_map]
  refine hsorted.imp_of_mem fun {a b} ha hb hlt hkey => ?_
  have hle := ((mem_compact h).1 ha).2 b ((mem_compact h).1 hb).1 hkey.symm
  omega

end

/-! ## The reader -/

section

/-- What a reader has after the changes. -/
def takeOver [DecidableEq κ] (replica : κ → ν) (changes : List (κ × ν)) : κ → ν :=
  changes.foldl (fun r c => Function.update r c.1 c.2) replica

/-- The reader has the value of every key of `K` that no entry behind its cursor is about. -/
def UpToDate (K : Set κ) (feed : List α) (cursor : Nat) (values replica : κ → ν) : Prop :=
  ∀ k ∈ K, (∃ e ∈ feed, key e = k ∧ cursor < seq e) ∨ replica k = values k

variable {seq key} {K : Set κ} {feed feed' page : List α} {cursor : Nat} {values values' replica : κ → ν}
  {changes : List (κ × ν)} {k : κ} {v : ν}

/-- **A write keeps the reader up to date** where it is announced. -/
theorem UpToDate.write (h : UpToDate seq key K feed cursor values replica) (hfeed : feed ⊆ feed')
    (hannounced : ∀ k ∈ K, values' k ≠ values k → ∃ e ∈ feed', key e = k ∧ cursor < seq e) :
    UpToDate seq key K feed' cursor values' replica := by
  intro k hk
  by_cases hsame : values' k = values k
  · rw [hsame]
    exact (h k hk).imp_left fun ⟨e, he, hrest⟩ => ⟨e, hfeed he, hrest⟩
  · exact .inl (hannounced k hk hsame)

/-- At the end of the feed the reader has it all. -/
theorem UpToDate.eq (h : UpToDate seq key K feed cursor values replica) (hend : behind seq cursor feed = [])
    (hk : k ∈ K) : replica k = values k := by
  rcases h k hk with ⟨e, he, -, hlt⟩ | hsame
  · have hmem : e ∈ behind seq cursor feed := mem_behind.2 ⟨he, hlt⟩
    rw [hend] at hmem
    cases hmem
  · exact hsame

variable [DecidableEq κ]

theorem takeOver_of_not_mem (h : k ∉ changes.map Prod.fst) : takeOver replica changes k = replica k := by
  induction changes generalizing replica with
  | nil => rfl
  | cons c changes ih =>
    rw [List.map_cons, List.mem_cons, not_or] at h
    exact (ih h.2).trans (Function.update_of_ne h.1 _ _)

theorem takeOver_of_mem (hnodup : (changes.map Prod.fst).Nodup) (h : (k, v) ∈ changes) :
    takeOver replica changes k = v := by
  induction changes generalizing replica with
  | nil => cases h
  | cons c changes ih =>
    rw [List.map_cons, List.nodup_cons] at hnodup
    rcases List.mem_cons.1 h with rfl | h
    · exact (takeOver_of_not_mem hnodup.1).trans (Function.update_self _ _ _)
    · exact ih hnodup.2 h

/-- **A page brings the reader up to date** with all that it is about, where it says of each key what the value is,
unless another entry has come meanwhile. -/
theorem UpToDate.pull (h : UpToDate seq key K feed cursor values replica) (hsorted : feed.Pairwise (seq · < seq ·))
    (hpage : page <+: behind seq cursor feed)
    (hchanges : (changes.map Prod.fst).Sublist ((compact seq key page).map key))
    (hsaid : ∀ e ∈ feed, key e ∈ K → (∀ e' ∈ feed, key e' = key e → seq e' ≤ seq e) → e ∈ compact seq key page →
      (key e, values (key e)) ∈ changes) :
    UpToDate seq key K feed (next seq cursor page) values (takeOver replica changes) := by
  intro k hk
  have hsplit := behind_eq hsorted hpage
  have hsortedPage : page.Pairwise (seq · < seq ·) := (sorted_behind hsorted).sublist hpage.sublist
  by_cases hlater : ∃ e ∈ feed, key e = k ∧ next seq cursor page < seq e
  · exact .inl hlater
  refine .inr ?_
  have hdone : ∀ e ∈ feed, key e = k → cursor < seq e → e ∈ page := by
    intro e he hkey hlt
    have hmem : e ∈ page ++ behind seq (next seq cursor page) feed := hsplit ▸ mem_behind.2 ⟨he, hlt⟩
    rcases List.mem_append.1 hmem with hmem | hmem
    · exact hmem
    · exact absurd ⟨e, he, hkey, (mem_behind.1 hmem).2⟩ hlater
  by_cases hon : k ∈ (compact seq key page).map key
  · obtain ⟨c, hc, rfl⟩ := List.mem_map.1 hon
    have hcpage := (mem_compact hsortedPage).1 hc
    have hbehind := mem_behind.1 (hpage.subset hcpage.1)
    have hnodup : (changes.map Prod.fst).Nodup := (nodup_compact hsortedPage).sublist hchanges
    refine takeOver_of_mem hnodup (hsaid c hbehind.1 hk (fun e' he' hkey => ?_) hc)
    rcases le_or_gt (seq e') cursor with hle | hlt
    · exact hle.trans hbehind.2.le
    · exact hcpage.2 e' (hdone e' he' hkey hlt) hkey
  · rw [takeOver_of_not_mem fun hmem => hon (hchanges.subset hmem)]
    rcases h k hk with ⟨e, he, hkey, hlt⟩ | hsame
    · obtain ⟨c, hc, hck, -⟩ : ∃ c ∈ compact seq key page, key c = key e ∧ seq e ≤ seq c :=
        exists_mem_compact hsortedPage (hdone e he hkey hlt)
      exact absurd (List.mem_map.2 ⟨c, hc, hck.trans hkey⟩) hon
    · exact hsame

end

end Changefeed

end JitPack
