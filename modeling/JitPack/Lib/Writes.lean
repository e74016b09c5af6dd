import JitPack.Lib.Keyed

/-!
# Writes to the rows they name

A list of writes is made to a list of rows, one after the other; each write is made to the rows of the key it names and
leaves the keys alone. Where no two writes name one key, every row is written once at most (`mem_writes`).
-/

namespace Keyed

variable {α κ ω : Type*} [DecidableEq κ] {key : α → κ} {name : ω → κ} {f : ω → α → α} {rows : List α} {ws : List ω}
variable {w : ω} {a x : α}

/-- The rows after the writes. -/
def writes (key : α → κ) (name : ω → κ) (f : ω → α → α) (ws : List ω) (rows : List α) : List α :=
  ws.foldl (fun rows w => rows.map fun a => if key a = name w then f w a else a) rows

/-- A row after the writes. -/
def written (key : α → κ) (name : ω → κ) (f : ω → α → α) (ws : List ω) (a : α) : α :=
  ws.foldl (fun a w => if key a = name w then f w a else a) a

theorem writes_eq_map (ws : List ω) (rows : List α) : writes key name f ws rows = rows.map (written key name f ws) := by
  induction ws generalizing rows with
  | nil => exact (List.map_id rows).symm
  | cons w ws ih =>
    have hstep : writes key name f (w :: ws) rows =
      writes key name f ws (rows.map fun a => if key a = name w then f w a else a) := rfl
    rw [hstep, ih, List.map_map]
    rfl

theorem written_of_notMem (h : ∀ w ∈ ws, key a ≠ name w) : written key name f ws a = a := by
  induction ws with
  | nil => rfl
  | cons w ws ih =>
    have hstep : written key name f (w :: ws) a = written key name f ws (if key a = name w then f w a else a) := rfl
    rw [hstep, if_neg (h w List.mem_cons_self)]
    exact ih fun w' hw' => h w' (List.mem_cons_of_mem _ hw')

theorem foldl_drop (ks : List κ) (rows : List α) : ks.foldl (drop key) rows = rows.filter (key · ∉ ks) := by
  induction ks generalizing rows with
  | nil => exact (List.filter_eq_self.2 fun _ _ => by simp).symm
  | cons k ks ih =>
    rw [List.foldl_cons, ih, drop, List.filter_filter]
    exact List.filter_congr fun a _ => by simp [Bool.and_comm]

variable (hkey : ∀ w a, key (f w a) = key a)
include hkey

theorem key_written : key (written key name f ws a) = key a := by
  induction ws generalizing a with
  | nil => rfl
  | cons w ws ih =>
    have hstep : written key name f (w :: ws) a = written key name f ws (if key a = name w then f w a else a) := rfl
    rw [hstep, ih]
    split
    · exact hkey w a
    · rfl

theorem written_of_mem (hws : (ws.map name).Nodup) (hw : w ∈ ws) (hname : key a = name w) :
    written key name f ws a = f w a := by
  induction ws generalizing a with
  | nil => cases hw
  | cons w' ws ih =>
    obtain ⟨hnew, hws⟩ := List.nodup_cons.1 hws
    have hstep : written key name f (w' :: ws) a = written key name f ws (if key a = name w' then f w' a else a) := rfl
    rw [hstep]
    rcases List.mem_cons.1 hw with rfl | hw
    · rw [if_pos hname]
      refine written_of_notMem fun w' hw' he => hnew ?_
      rw [hkey, hname] at he
      exact List.mem_map.2 ⟨w', hw', he.symm⟩
    · rw [if_neg]
      · exact ih hws hw hname
      · intro he
        exact hnew (List.mem_map.2 ⟨w, hw, hname.symm.trans he⟩)

theorem map_key_writes : (writes key name f ws rows).map key = rows.map key := by
  rw [writes_eq_map, List.map_map]
  exact List.map_congr_left fun a _ => key_written hkey

/-- The rows after writes that name a key once at most. -/
theorem mem_writes (hws : (ws.map name).Nodup) : x ∈ writes key name f ws rows ↔
    (∃ w ∈ ws, ∃ a ∈ rows, key a = name w ∧ x = f w a) ∨ x ∈ rows ∧ key x ∉ ws.map name := by
  rw [writes_eq_map, List.mem_map]
  constructor
  · rintro ⟨a, ha, rfl⟩
    by_cases hmem : key a ∈ ws.map name
    · obtain ⟨w, hw, hname⟩ := List.mem_map.1 hmem
      exact .inl ⟨w, hw, a, ha, hname.symm, written_of_mem hkey hws hw hname.symm⟩
    · have hsame : written key name f ws a = a :=
        written_of_notMem fun w hw he => hmem (List.mem_map.2 ⟨w, hw, he.symm⟩)
      rw [hsame]
      exact .inr ⟨ha, hmem⟩
  · rintro (⟨w, hw, a, ha, hname, rfl⟩ | ⟨hx, hmem⟩)
    · exact ⟨a, ha, written_of_mem hkey hws hw hname⟩
    · exact ⟨x, hx, written_of_notMem fun w hw he => hmem (List.mem_map.2 ⟨w, hw, he.symm⟩)⟩

/-- **Rows of a kind are written or dropped**, each of them once; the others stay. -/
theorem mem_rewritten {source : ω → α} {p : α → Prop} [DecidablePred p] {ds : List α} (hrows : (rows.map key).Nodup)
    (hparts : (ws.map source ++ ds).Perm (rows.filter (p ·))) :
    x ∈ (ds.map key).foldl (drop key) (writes key (fun w => key (source w)) f ws rows) ↔
      x ∈ rows ∧ ¬ p x ∨ ∃ w ∈ ws, x = f w (source w) := by
  have hmem : ∀ a, a ∈ ws.map source ∨ a ∈ ds ↔ a ∈ rows ∧ p a := by
    intro a
    rw [← List.mem_append, hparts.mem_iff]
    simp
  have hsource : ∀ {w}, w ∈ ws → source w ∈ rows ∧ p (source w) := fun hw =>
    (hmem _).1 (.inl (List.mem_map_of_mem hw))
  have hnodup : ((ws.map source ++ ds).map key).Nodup :=
    (hparts.map key).nodup_iff.2 (hrows.sublist (List.filter_sublist.map _))
  rw [List.map_append, List.nodup_append, List.map_map] at hnodup
  obtain ⟨hws, -, hapart⟩ := hnodup
  have hwrites : x ∈ writes key (fun w => key (source w)) f ws rows ↔ _ := mem_writes hkey hws
  rw [mem_drops, hwrites]
  constructor
  · rintro ⟨⟨w, hw, a, ha, hname, rfl⟩ | ⟨hx, hrest⟩, hdrop⟩
    · exact .inr ⟨w, hw, by rw [eq_of_key hrows ha (hsource hw).1 hname]⟩
    · refine .inl ⟨hx, fun hp => ?_⟩
      rcases (hmem x).2 ⟨hx, hp⟩ with hmem | hmem
      · obtain ⟨w, hw, rfl⟩ := List.mem_map.1 hmem
        exact hrest (List.mem_map.2 ⟨w, hw, rfl⟩)
      · exact hdrop (List.mem_map_of_mem hmem)
  · rintro (⟨hx, hstays⟩ | ⟨w, hw, rfl⟩)
    · refine ⟨.inr ⟨hx, fun hname => ?_⟩, fun hname => ?_⟩
      · obtain ⟨w, hw, hname⟩ := List.mem_map.1 hname
        exact hstays (eq_of_key hrows (hsource hw).1 hx hname ▸ (hsource hw).2)
      · obtain ⟨a, ha, hname⟩ := List.mem_map.1 hname
        obtain ⟨hin, hp⟩ := (hmem a).1 (.inr ha)
        exact hstays (eq_of_key hrows hin hx hname ▸ hp)
    · refine ⟨.inl ⟨w, hw, source w, (hsource hw).1, rfl, rfl⟩, fun hname => ?_⟩
      obtain ⟨a, ha, hname⟩ := List.mem_map.1 hname
      rw [hkey] at hname
      exact hapart _ (List.mem_map.2 ⟨w, hw, rfl⟩) _ (List.mem_map_of_mem ha) hname.symm

/-- What no write names and nothing drops stays, in its order. -/
theorem filter_writes {q : κ → Bool} {ks : List κ} (hws : ∀ k, q k → k ∉ ws.map name) (hks : ∀ k, q k → k ∉ ks) :
    (ks.foldl (drop key) (writes key name f ws rows)).filter (fun a => q (key a)) =
      rows.filter fun a => q (key a) := by
  have hfix : ∀ a, q (key a) → written key name f ws a = a := fun a ha =>
    written_of_notMem fun w hw he => hws _ ha (List.mem_map.2 ⟨w, hw, he.symm⟩)
  have hdrops : ∀ l : List α, (l.filter (key · ∉ ks)).filter (fun a => q (key a)) = l.filter fun a => q (key a) := by
    intro l
    rw [List.filter_filter]
    refine List.filter_congr fun a _ => ?_
    cases hq : q (key a) with
    | false => rfl
    | true => simp [hks _ hq]
  rw [foldl_drop, hdrops, writes_eq_map]
  exact filter_map_of_fix (fun a _ => congrArg q (key_written hkey)) fun a _ ha => hfix a ha

end Keyed
