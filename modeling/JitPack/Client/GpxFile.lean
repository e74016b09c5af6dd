import JitPack.Client.Gpx

/-!
# A written file is read back

A file that `writeGpx` wrote is a list of tags, each a `<` and what stands before the next one (`writeGpx_eq`), since
the name is escaped. A pattern that starts with `<` and the name of another tag passes over a tag, whatever stands
behind it (`scan_tags`, `star_tags`), so every pattern of the reader finds what was written for it, and the file is
read with its points, rounded, its name and its kind (`parseGpx_writeGpx`).
-/

namespace JitPack

namespace Gpx

open Shopping (Text)
open Numeral
open Regex

/-! ## Tags -/

variable {β : Type} {k : State ℕ → Option β} {prev : Option ℕ} {rest body : Text} {caps : List (ℕ × List ℕ)}
  {tags : List Text} {names : List String} {tag s : String} {u : ℕ}

/-- The tags of a file: each a `<` and what stands before the next. -/
def markup (tags : List Text) : Text := tags.flatMap (60 :: ·)

@[simp] theorem markup_nil : markup [] = [] := rfl

@[simp] theorem markup_cons (body : Text) : markup (body :: tags) = 60 :: (body ++ markup tags) := rfl

@[simp] theorem markup_append (tags' : List Text) : markup (tags ++ tags') = markup tags ++ markup tags' :=
  List.flatMap_append ..

/-- A tag that begins with one of the names and holds no further `<`. -/
structure Tagged (names : List String) (body : Text) : Prop where
  plain : ∀ u ∈ body, u ≠ 60
  named : ∃ s ∈ names, units s <+: body

/-- A literal is matched by itself. -/
theorem run_lit (s : String) : run (lit s) k ⟨prev, units s ++ rest, caps⟩ = k ⟨lastOf prev (units s), rest, caps⟩ := by
  rw [lit]
  generalize units s = t
  induction t generalizing prev with
  | nil => rfl
  | cons u t ih =>
    rw [List.map_cons, run_seqs_cons, List.cons_append]
    simpa [run] using ih

theorem fold_eq_iff {a : ℕ} (ha : a < 65) : fold u = a ↔ u = a := by
  unfold fold
  split_ifs <;> omega

/-- A literal that starts with a sign needs it. -/
theorem run_lit_of_ne {a : ℕ} (ha : a < 65) (hs : (units s).head? = some a) (hu : u ≠ a) {t : Text} :
    run (lit s) k ⟨prev, u :: t, caps⟩ = none := by
  obtain ⟨as, has⟩ := List.head?_eq_some_iff.1 hs
  have hself : fold a = a := (fold_eq_iff ha).2 rfl
  have hfold : (fold u == fold a) = false := by
    rw [hself, beq_eq_false_iff_ne]
    exact fun h => hu ((fold_eq_iff ha).1 h)
  rw [lit, has, List.map_cons, run_seqs_cons]
  simp [run, hfold]

/-- A pattern passes over the tags that none of its matches can begin with. -/
theorem star_tags {p : ℕ → Bool} {greedy : Bool} (hp : ∀ u, p u = true) (htags : ∀ b ∈ tags, Tagged names b)
    (hk : ∀ u, u ≠ 60 → ∀ prev t, k ⟨prev, u :: t, caps⟩ = none)
    (hfail : ∀ s ∈ names, ∀ prev t, k ⟨prev, 60 :: (units s ++ t), caps⟩ = none) :
    runStar greedy p caps k prev (markup tags ++ rest) =
      runStar greedy p caps k (lastOf prev (markup tags)) rest := by
  induction tags generalizing prev with
  | nil => rfl
  | cons b tags ih =>
    rw [List.forall_mem_cons] at htags
    obtain ⟨s, hs, t, rfl⟩ := htags.1.named
    have hnone : k ⟨prev, 60 :: (units s ++ t ++ (markup tags ++ rest)), caps⟩ = none := by
      rw [List.append_assoc]
      exact hfail s hs _ _
    have hstep : runStar greedy p caps k prev (60 :: (units s ++ t ++ (markup tags ++ rest))) =
        runStar greedy p caps k (some 60) (units s ++ t ++ (markup tags ++ rest)) := by
      simp only [runStar, hp, hnone, if_true, Option.or_none, Option.none_or, ite_self]
    rw [markup_cons, List.cons_append, List.append_assoc, hstep,
      star_until (fun _ _ => hp _) fun c hc => hk c (htags.1.plain c hc), ih htags.2]
    simp

section
variable {r : Regex ℕ} {miss : ℕ → β → β} {hit : Found ℕ → β → β} {done : β}

/-- So does a scan. -/
theorem scan_tags (htags : ∀ b ∈ tags, Tagged names b)
    (hopen : ∀ u, u ≠ 60 → ∀ prev t, matchAt r prev (u :: t) = none)
    (hfail : ∀ s ∈ names, ∀ prev t, matchAt r prev (60 :: (units s ++ t)) = none) :
    scan r miss hit done 0 prev (markup tags ++ rest) =
      (markup tags).foldr miss (scan r miss hit done 0 (lastOf prev (markup tags)) rest) := by
  induction tags generalizing prev with
  | nil => rfl
  | cons b tags ih =>
    rw [List.forall_mem_cons] at htags
    obtain ⟨s, hs, t, rfl⟩ := htags.1.named
    have hnone : matchAt r prev (60 :: (units s ++ t ++ (markup tags ++ rest))) = none := by
      rw [List.append_assoc]
      exact hfail s hs _ _
    rw [markup_cons, List.cons_append, List.append_assoc, scan_miss hnone,
      scan_past fun c hc => hopen c (htags.1.plain c hc), ih htags.2]
    simp

theorem foundFrom_tags (htags : ∀ b ∈ tags, Tagged names b)
    (hopen : ∀ u, u ≠ 60 → ∀ prev t, matchAt r prev (u :: t) = none)
    (hfail : ∀ s ∈ names, ∀ prev t, matchAt r prev (60 :: (units s ++ t)) = none) :
    foundFrom r prev (markup tags ++ rest) = foundFrom r (lastOf prev (markup tags)) rest := by
  rw [foundFrom, scan_tags htags hopen hfail, foldr_keep, foundFrom]

/-- A text made of tags that no match begins with holds none. -/
theorem exec_tags (htags : ∀ b ∈ tags, Tagged names b)
    (hopen : ∀ u, u ≠ 60 → ∀ prev t, matchAt r prev (u :: t) = none)
    (hfail : ∀ s ∈ names, ∀ prev t, matchAt r prev (60 :: (units s ++ t)) = none)
    (hnil : ∀ prev, matchAt r prev [] = none) : exec r (markup tags) = none := by
  rw [exec, matchAll, ← List.append_nil (markup tags), foundFrom_tags htags hopen hfail, foundFrom_nil (hnil _),
    List.head?_nil]

end

/-! ## The patterns on what is written -/

@[simp] theorem run_lt : run (lit "<") k ⟨prev, 60 :: rest, caps⟩ = k ⟨some 60, rest, caps⟩ := by
  simp [lit, units, seqs, run]

@[simp] theorem run_gt : run (lit ">") k ⟨prev, 62 :: rest, caps⟩ = k ⟨some 62, rest, caps⟩ := by
  simp [lit, units, seqs, run]

@[simp] theorem run_ltSlash : run (lit "</") k ⟨prev, 60 :: 47 :: rest, caps⟩ = k ⟨some 47, rest, caps⟩ := by
  simp [lit, units, seqs, run]

theorem run_spaces (hu : Shopping.isSpace u = false) :
    run spaces k ⟨prev, u :: rest, caps⟩ = k ⟨prev, u :: rest, caps⟩ := star_stop hu

/-- `\b` behind a name and before the end of its tag. -/
theorem run_bound {t : Text} (ht : ∀ u ∈ t, isWord u = true) (hne : t ≠ []) (hu : isWord u = false) :
    run bound k ⟨lastOf prev t, u :: rest, caps⟩ = k ⟨lastOf prev t, u :: rest, caps⟩ := by
  simp [bound, run, lastOf_any ht hne, hu]

/-- An element is matched with what stands between its tags. -/
theorem element_hit (htag : ∀ u ∈ units tag, isWord u = true) (hne : units tag ≠ []) (hbody : ∀ u ∈ body, u ≠ 60) :
    matchAt (element tag) prev (60 :: (units tag ++ 62 :: (body ++ 60 :: 47 :: (units tag ++ 62 :: rest)))) =
      some ⟨some 62, rest, [(1, body)]⟩ := by
  have hclose : ∀ prev caps, run (seqs [lit "</", lit tag, spaces, lit ">"]) some
      ⟨prev, 60 :: 47 :: (units tag ++ 62 :: rest), caps⟩ = some ⟨some 62, rest, caps⟩ := by
    intro prev caps
    rw [run_seqs_cons, run_ltSlash, run_seqs_cons, run_lit, run_seqs_cons, run_spaces (by decide), run_seqs_cons, run_gt]
    rfl
  have hopen : ∀ u, u ≠ 60 → ∀ prev t caps, run (seqs [lit "</", lit tag, spaces, lit ">"]) some
      ⟨prev, u :: t, caps⟩ = none := by
    intro u hu prev t caps
    rw [run_seqs_cons]
    exact run_lit_of_ne (by decide) (by simp [units]) hu
  rw [matchAt, element, run_seqs_cons, run_lt, run_seqs_cons, run_lit, run_seqs_cons, run_bound htag hne (by decide),
    run_seqs_cons]
  change runStar true _ [] _ _ (62 :: _) = _
  rw [star_stop (by decide), run_seqs_cons, run_gt, run_seqs_cons, run_group]
  change runStar false _ [] _ _ (body ++ _) = _
  refine (star_until (fun _ _ => rfl) fun c hc prev cs => ?_).trans (star_lazy_of_some ?_)
  · exact hopen c (hbody c hc) prev cs _
  · exact (hclose _ _).trans (by simp only [captured])

theorem run_lit_nil (hs : units s ≠ []) : run (lit s) k ⟨prev, [], caps⟩ = none := by
  obtain ⟨a, t, ha⟩ := List.exists_cons_of_ne_nil hs
  rw [lit, ha]
  rfl

/-- Where no `<` is, there is no CDATA. -/
theorem exec_cdata {raw : Text} (h : ∀ u ∈ raw, u ≠ 60) : exec cdata raw = none := by
  refine exec_none fun prev t ht => ?_
  have hinner : ∀ prev s, s <:+ t → run (seqs [lit "<![CDATA[", group 1 anything, lit "]]>", spaces,
      look fun _ behind => behind.isNone]) some ⟨prev, s, []⟩ = none := by
    intro prev s hs
    cases s with
    | nil => exact run_lit_nil (by simp [units])
    | cons u s =>
      refine run_lit_of_ne (by decide) (by simp [units]) (h u ?_)
      exact (hs.trans ht).subset List.mem_cons_self
  have hspaces : run (seqs [spaces, lit "<![CDATA[", group 1 anything, lit "]]>", spaces,
      look fun _ behind => behind.isNone]) some ⟨prev, t, []⟩ = none := star_none hinner
  rw [matchAt, cdata, run_seqs_cons]
  simp only [run]
  split_ifs
  · exact hspaces
  · rfl

/-! ### Names -/

/-- What a code unit is escaped as. -/
def escaped (u : ℕ) : Text :=
  if u = 38 then units "&amp;" else if u = 60 then units "&lt;" else if u = 62 then units "&gt;"
  else if u = 34 then units "&quot;" else [u]

theorem escapeXml_eq (name : Text) : escapeXml name = name.flatMap escaped := by
  simp only [escapeXml, substitute, List.flatMap_assoc]
  refine List.flatMap_congr fun u _ => ?_
  unfold escaped
  by_cases h1 : u = 38
  · subst h1; simp [units]
  by_cases h2 : u = 60
  · subst h2; simp [units]
  by_cases h3 : u = 62
  · subst h3; simp [units]
  by_cases h4 : u = 34
  · subst h4; simp [units]
  simp [h1, h2, h3, h4]

theorem escapeXml_plain {name : Text} (h : u ∈ escapeXml name) : u ≠ 60 := by
  rw [escapeXml_eq] at h
  obtain ⟨v, -, hv⟩ := List.mem_flatMap.1 h
  unfold escaped at hv
  split_ifs at hv <;> simp [units] at hv <;> omega

/-- An entity with a name is matched. -/
theorem entity_hit {code : Text} (hcode : ∀ u ∈ code, isWord u = true) (hne : code ≠ []) :
    matchAt entity prev (38 :: (code ++ 59 :: rest)) = some ⟨some 59, rest, [(1, code)]⟩ := by
  obtain ⟨u, code, rfl⟩ := List.exists_cons_of_ne_nil hne
  rw [List.forall_mem_cons] at hcode
  have hu : u ≠ 35 := by
    rintro rfl
    exact absurd hcode.1 (by decide)
  have hsign : ∀ (s : String) (r : Regex ℕ) (k : State ℕ → Option (State ℕ)) prev t caps, (units s).head? = some 35 →
      run (seq (lit s) r) k ⟨prev, u :: t, caps⟩ = none := fun s r k prev t caps hs =>
    run_lit_of_ne (by decide) hs hu
  have hamp : ∀ (k : State ℕ → Option (State ℕ)) t, run (lit "&") k ⟨prev, 38 :: t, []⟩ = k ⟨some 38, t, []⟩ := by
    intro k t
    simp [lit, units, seqs, run]
  have hsemi : ∀ prev caps, run (seqs [lit ";"]) some ⟨prev, 59 :: rest, caps⟩ = some ⟨some 59, rest, caps⟩ := by
    intro prev caps
    simp [lit, units, seqs, run]
  rw [matchAt, entity, run_seqs_cons, hamp, run_seqs_cons, run_group, run_alts_cons, run_alts_cons, run_alts_cons,
    List.cons_append, hsign _ _ _ _ _ _ (by simp [units]), hsign _ _ _ _ _ _ (by simp [units]), Option.none_or,
    Option.none_or]
  have hword : run (plus isWord) (fun t => run (seqs [lit ";"]) some { t with caps :=
      (1, (u :: (code ++ 59 :: rest)).take ((u :: (code ++ 59 :: rest)).length - t.rest.length)) :: t.caps })
      ⟨some 38, u :: (code ++ 59 :: rest), []⟩ = some ⟨some 59, rest, [(1, u :: code)]⟩ := by
    simp only [plus, run, hcode.1, if_true]
    refine star_greedy_of_some hcode.2 (by simp [isWord, isDigit]) ((hsemi _ _).trans ?_)
    have hcap := captured (u :: code) (59 :: rest)
    rw [List.cons_append] at hcap
    simp only [hcap]
  rw [hword, Option.some_or]

theorem entity_of_ne (hu : u ≠ 38) : matchAt entity prev (u :: rest) = none := by
  rw [matchAt, entity, run_seqs_cons]
  exact run_lit_of_ne (by decide) (by simp [units]) hu

/-- A code unit stands for itself or is written as an entity that is decoded to it. -/
theorem escaped_cases (u : ℕ) : (u ≠ 38 ∧ escaped u = [u]) ∨
    ∃ code, (∀ v ∈ code, isWord v = true) ∧ code ≠ [] ∧ escaped u = 38 :: (code ++ [59]) ∧
      decoded ⟨38 :: (code ++ [59]), [(1, code)]⟩ = some [u] := by
  have hentity : ∀ code : String, escaped u = 38 :: (units code ++ [59]) → (∀ v ∈ units code, isWord v = true) →
      units code ≠ [] → decoded ⟨38 :: (units code ++ [59]), [(1, units code)]⟩ = some [u] →
      (u ≠ 38 ∧ escaped u = [u]) ∨ ∃ code, (∀ v ∈ code, isWord v = true) ∧ code ≠ [] ∧
        escaped u = 38 :: (code ++ [59]) ∧ decoded ⟨38 :: (code ++ [59]), [(1, code)]⟩ = some [u] :=
    fun code hesc hword hne hdec => .inr ⟨_, hword, hne, hesc, hdec⟩
  by_cases h1 : u = 38
  · subst h1
    apply hentity "amp" <;> simp [escaped, units, isWord, isDigit, decoded, Found.cap, entities, toLowerCase]
  by_cases h2 : u = 60
  · subst h2
    apply hentity "lt" <;> simp [escaped, units, isWord, isDigit, decoded, Found.cap, entities, toLowerCase]
  by_cases h3 : u = 62
  · subst h3
    apply hentity "gt" <;> simp [escaped, units, isWord, isDigit, decoded, Found.cap, entities, toLowerCase]
  by_cases h4 : u = 34
  · subst h4
    apply hentity "quot" <;> simp [escaped, units, isWord, isDigit, decoded, Found.cap, entities, toLowerCase]
  exact .inl ⟨h1, by simp [escaped, h1, h2, h3, h4]⟩

theorem entity_nil : matchAt entity prev [] = none := by
  rw [matchAt, entity, run_seqs_cons]
  exact run_lit_nil (by simp [units])

/-- What is escaped is decoded. -/
theorem replace_escapeXml (name : Text) : replace entity decoded (escapeXml name) = some name := by
  have hscan : ∀ prev, scan entity (fun c text => text.map (c :: ·))
      (fun m text => (decoded m).bind fun by' => text.map (by' ++ ·)) (some []) 0 prev (escapeXml name) = some name := by
    rw [escapeXml_eq]
    induction name with
    | nil => exact fun prev => scan_nil entity_nil
    | cons u name ih =>
      intro prev
      rw [List.flatMap_cons]
      obtain ⟨hu, hesc⟩ | ⟨code, hcode, hne, hesc, hdec⟩ := escaped_cases u
      · rw [hesc, List.singleton_append, scan_miss (entity_of_ne hu), ih, Option.map_some]
      · have hmatch : matchAt entity prev (38 :: (code ++ [59]) ++ name.flatMap escaped) =
            some ⟨some 59, name.flatMap escaped, [(1, code)]⟩ := by
          simpa using entity_hit hcode hne
        rw [hesc, scan_hit hmatch, hdec, ih]
        rfl
  exact hscan none

/-- A text with nothing to decode is read as it is. -/
theorem replace_plain {raw : Text} (h : ∀ u ∈ raw, u ≠ 38) : replace entity decoded raw = some raw := by
  have hpast : ∀ c ∈ raw, ∀ prev cs, matchAt entity prev (c :: cs) = none := fun c hc _ _ => entity_of_ne (h c hc)
  rw [replace, ← List.append_nil raw, scan_past hpast, scan_nil entity_nil, foldr_replace]

theorem text_escapeXml (name : Text) : text (escapeXml name) = some (Shopping.trim name) := by
  rw [text, exec_cdata fun u hu => escapeXml_plain hu]
  simp only [replace_escapeXml, Option.map_some]

theorem text_plain {raw : Text} (h : ∀ u ∈ raw, u ≠ 60 ∧ u ≠ 38) : text raw = some (Shopping.trim raw) := by
  rw [text, exec_cdata fun u hu => (h u hu).1]
  simp only [replace_plain fun u hu => (h u hu).2, Option.map_some]

/-! ## What is written, in tags -/

/-- A start tag, with what stands behind it. -/
def openTag (tag : String) (behind : Text) : Text := units tag ++ 62 :: behind

/-- An end tag, with what stands behind it. -/
def closeTag (tag : String) (behind : Text) : Text := 47 :: (units tag ++ 62 :: behind)

/-- What stands before the track. -/
def headTags : List Text :=
  [units "?xml version=\"1.0\" encoding=\"UTF-8\"?>\n",
    units "gpx version=\"1.1\" creator=\"JIT-Pack\" xmlns=\"http://www.topografix.com/GPX/1/1\">\n"]

/-- What stands in the track before its segment. -/
def trackTags (name : Text) (kind : TrackKind) : List Text :=
  [openTag "name" (escapeXml name), closeTag "name" [], openTag "type" (gpxType kind), closeTag "type" []]

/-- What stands behind the points. -/
def tailTags : List Text := [closeTag "trkseg" [], closeTag "trk" [10], closeTag "gpx" [10]]

section
variable (toString : ℤ → Text)

/-- The attributes of a point. -/
def attrsOf (p : RoutePoint Double) : Text :=
  units " lat=\"" ++ (toFixed toString 7 p.lat ++ (units "\" lon=\"" ++ (toFixed toString 7 p.lon ++ [34])))

/-- What stands in the element of a point. -/
def eleTags (p : RoutePoint Double) : List Text :=
  match p.ele with
  | none => []
  | some ele => [openTag "ele" (toFixed toString 1 ele), closeTag "ele" []]

/-- The tags of a point. -/
def rowTags (p : RoutePoint Double) : List Text :=
  (units "trkpt" ++ attrsOf toString p ++ [62]) :: (eleTags toString p ++ [closeTag "trkpt" [10]])

variable {toString} {name : Text} {kind : TrackKind} {points : List (RoutePoint Double)}

theorem row_eq (p : RoutePoint Double) : row toString p ++ [10] = markup (rowTags toString p) := by
  unfold row rowTags eleTags attrsOf
  cases p.ele with
  | none => simp [units, closeTag]
  | some ele => simp [units, openTag, closeTag]

theorem intercalate_rows {x : Text} {xs : List Text} (rows : List Text) :
    [10].intercalate (rows ++ x :: xs) = rows.flatMap (· ++ [10]) ++ [10].intercalate (x :: xs) := by
  induction rows with
  | nil => rfl
  | cons row rows ih =>
    obtain ⟨y, ys, hy⟩ : ∃ y ys, rows ++ x :: xs = y :: ys := by
      cases rows with
      | nil => exact ⟨x, xs, rfl⟩
      | cons y ys => exact ⟨y, ys ++ x :: xs, rfl⟩
    rw [List.cons_append, hy, List.intercalate_cons_cons, ← hy, ih, List.flatMap_cons, List.append_assoc]
    simp

/-- What is written is a list of tags. -/
theorem writeGpx_eq : writeGpx toString name kind points =
    markup (headTags ++ openTag "trk" [] :: trackTags name kind ++ openTag "trkseg" [10] ::
      points.flatMap (rowTags toString) ++ tailTags) := by
  have hrows : (points.map (row toString)).flatMap (· ++ [10]) = markup (points.flatMap (rowTags toString)) := by
    rw [List.flatMap_map, markup, List.flatMap_assoc]
    exact List.flatMap_congr fun p _ => row_eq p
  rw [writeGpx, intercalate_rows, List.flatMap_append, hrows]
  simp [units, headTags, trackTags, tailTags, openTag, closeTag, List.intercalate_cons_cons]

theorem isNumeral_ne (h : IsNumeral u) : u ≠ 60 ∧ u ≠ 62 ∧ u ≠ 47 ∧ u ≠ 34 ∧ u ≠ 39 ∧ u ≠ 38 ∧ u ≠ 108 := by
  simp only [IsNumeral, isDigit, Bool.and_eq_true, decide_eq_true_eq, List.mem_cons, List.not_mem_nil, or_false] at h
  omega

theorem fold_isNumeral (h : IsNumeral u) : fold u ≠ 76 := by
  simp only [IsNumeral, isDigit, Bool.and_eq_true, decide_eq_true_eq, List.mem_cons, List.not_mem_nil, or_false] at h
  unfold fold
  split_ifs <;> omega

theorem Tagged.mono {names' : List String} (h : Tagged names body) (hsub : names ⊆ names') : Tagged names' body :=
  ⟨h.plain, let ⟨s, hs, hpre⟩ := h.named; ⟨s, hsub hs, hpre⟩⟩

theorem isWord_ne (h : isWord u = true) : u ≠ 60 := by
  rintro rfl
  exact absurd h (by decide)

theorem tagged_openTag {behind : Text} (hs : s ∈ names) (heq : units s = units tag ++ [62])
    (htag : ∀ u ∈ units tag, isWord u = true) (hbehind : ∀ u ∈ behind, u ≠ 60) : Tagged names (openTag tag behind) where
  plain u hu := by
    rcases List.mem_append.1 hu with hu | hu
    · exact isWord_ne (htag u hu)
    · rcases List.mem_cons.1 hu with rfl | hu
      · decide
      · exact hbehind u hu
  named := ⟨s, hs, by rw [heq, openTag]; exact ⟨behind, by simp⟩⟩

theorem tagged_closeTag {behind : Text} (hs : s ∈ names) (heq : units s = 47 :: (units tag ++ [62]))
    (htag : ∀ u ∈ units tag, isWord u = true) (hbehind : ∀ u ∈ behind, u ≠ 60) : Tagged names (closeTag tag behind) where
  plain u hu := by
    rcases List.mem_cons.1 hu with rfl | hu
    · decide
    · have hopen : Tagged [tag ++ ">"] (openTag tag behind) :=
        tagged_openTag List.mem_cons_self (by simp [units]) htag hbehind
      exact hopen.plain u hu
  named := ⟨s, hs, by rw [heq, closeTag]; exact ⟨behind, by simp⟩⟩

def trackNames : List String := ["name>", "/name>", "type>", "/type>"]

def rowNames : List String := ["trkpt ", "ele>", "/ele>", "/trkpt>"]

def tailNames : List String := ["/trkseg>", "/trk>", "/gpx>"]

theorem tagged_headTags : ∀ b ∈ headTags, Tagged ["?xml ", "gpx "] b := by
  simp only [headTags, List.forall_mem_cons]
  refine ⟨⟨by simp [units], "?xml ", by simp, by simp [units]⟩, ⟨by simp [units], "gpx ", by simp, by simp [units]⟩,
    by simp⟩

theorem gpxType_plain (kind : TrackKind) : ∀ u ∈ gpxType kind, u ≠ 60 ∧ u ≠ 38 := by
  cases kind <;> simp [gpxType, units]

theorem tagged_trackTags : ∀ b ∈ trackTags name kind, Tagged trackNames b := by
  simp only [trackTags, List.forall_mem_cons]
  refine ⟨tagged_openTag (s := "name>") ?_ ?_ ?_ fun u hu => escapeXml_plain hu,
    tagged_closeTag (s := "/name>") ?_ ?_ ?_ ?_,
    tagged_openTag (s := "type>") ?_ ?_ ?_ fun u hu => (gpxType_plain kind u hu).1,
    tagged_closeTag (s := "/type>") ?_ ?_ ?_ ?_, by simp⟩ <;>
    simp [trackNames, units, isWord, isDigit]

theorem tagged_tailTags : ∀ b ∈ tailTags, Tagged tailNames b := by
  simp only [tailTags, List.forall_mem_cons]
  refine ⟨tagged_closeTag (s := "/trkseg>") ?_ ?_ ?_ ?_, tagged_closeTag (s := "/trk>") ?_ ?_ ?_ ?_,
    tagged_closeTag (s := "/gpx>") ?_ ?_ ?_ ?_, by simp⟩ <;>
    simp [tailNames, units, isWord, isDigit]

end

section
variable (ts : Printed)

theorem toFixed_ne {d : ℕ} {x : Double} (h : u ∈ toFixed ts.toString d x) :
    u ≠ 60 ∧ u ≠ 62 ∧ u ≠ 47 ∧ u ≠ 34 ∧ u ≠ 39 ∧ u ≠ 38 ∧ u ≠ 108 := isNumeral_ne (isNumeral_of_mem_toFixed h)

theorem attrsOf_ne {p : RoutePoint Double} (h : u ∈ attrsOf ts.toString p) : u ≠ 60 ∧ u ≠ 62 ∧ u ≠ 47 := by
  simp only [attrsOf, List.mem_append] at h
  rcases h with h | h | h | h | h
  · revert h; simp [units]; omega
  · have := toFixed_ne ts h; omega
  · revert h; simp [units]; omega
  · have := toFixed_ne ts h; omega
  · simp only [List.mem_singleton] at h; omega

theorem tagged_eleTags (p : RoutePoint Double) : ∀ b ∈ eleTags ts.toString p, Tagged ["ele>", "/ele>"] b := by
  unfold eleTags
  cases p.ele with
  | none => simp
  | some ele =>
    simp only [List.forall_mem_cons]
    refine ⟨tagged_openTag (s := "ele>") ?_ ?_ ?_ fun u hu => (toFixed_ne ts hu).1,
      tagged_closeTag (s := "/ele>") ?_ ?_ ?_ ?_, by simp⟩ <;>
      simp [units, isWord, isDigit]

theorem tagged_rowTags (p : RoutePoint Double) : ∀ b ∈ rowTags ts.toString p, Tagged rowNames b := by
  simp only [rowTags, List.forall_mem_cons, List.forall_mem_append]
  refine ⟨⟨fun u hu => ?_, "trkpt ", by simp [rowNames], by simp [units, attrsOf]⟩,
    fun b hb => (tagged_eleTags ts p b hb).mono (by simp [rowNames]),
    tagged_closeTag (s := "/trkpt>") ?_ ?_ ?_ ?_, by simp⟩
  · simp only [List.mem_append] at hu
    rcases hu with (hu | hu) | hu
    · revert hu; simp [units]; omega
    · exact (attrsOf_ne ts hu).1
    · revert hu; simp; omega
  all_goals simp [rowNames, units, isWord, isDigit]

end

/-! ## What the patterns pass over -/

theorem opens_of_ne (c : String) (hu : u ≠ 60) : matchAt (opens c) prev (u :: rest) = none := by
  rw [matchAt, opens, run_seqs_cons]
  exact run_lit_of_ne (by decide) (by simp [units]) hu

theorem element_of_ne (tag : String) (hu : u ≠ 60) : matchAt (element tag) prev (u :: rest) = none := by
  rw [matchAt, element, run_seqs_cons]
  exact run_lit_of_ne (by decide) (by simp [units]) hu

theorem point_of_ne (tag : String) (hu : u ≠ 60) : matchAt (point tag) prev (u :: rest) = none := by
  rw [matchAt, point, run_seqs_cons]
  exact run_lit_of_ne (by decide) (by simp [units]) hu

theorem metadata_of_ne (hu : u ≠ 60) : matchAt metadata prev (u :: rest) = none := by
  rw [matchAt, metadata, run_seqs_cons, opens, run_seqs_cons]
  exact run_lit_of_ne (by decide) (by simp [units]) hu

theorem ownerOf_of_ne (tag first : String) (hu : u ≠ 60) : matchAt (ownerOf tag first) prev (u :: rest) = none := by
  rw [matchAt, ownerOf, run_seqs_cons, opens, run_seqs_cons]
  exact run_lit_of_ne (by decide) (by simp [units]) hu

/-- The names of the tags outside the track's own. -/
def fileNames : List String := ["?xml ", "gpx "] ++ "trk>" :: trackNames ++ rowNames ++ tailNames

theorem opens_trkseg_fails : ∀ s ∈ fileNames, ∀ prev t, matchAt (opens "trkseg") prev (60 :: (units s ++ t)) = none := by
  simp [fileNames, trackNames, rowNames, tailNames, matchAt, opens, lit, units, run, seqs, fold, bound, isWord, isDigit]

theorem metadata_fails : ∀ s ∈ "trkseg>" :: fileNames, ∀ prev t, matchAt metadata prev (60 :: (units s ++ t)) = none := by
  simp [fileNames, trackNames, rowNames, tailNames, matchAt, metadata, opens, lit, units, run, seqs, fold]

theorem ownerOf_fails : ∀ s ∈ ["?xml ", "gpx "], ∀ prev t,
    matchAt (ownerOf "trk" "trkseg") prev (60 :: (units s ++ t)) = none := by
  simp [matchAt, ownerOf, opens, lit, units, run, seqs, fold]

theorem owner_goes_on : ∀ s ∈ trackNames, ∀ prev t caps,
    run (seqs [alts [opens "trkseg", closes "trk"]]) some ⟨prev, 60 :: (units s ++ t), caps⟩ = none := by
  simp [trackNames, opens, closes, alts, lit, units, run, seqs, fold]

theorem element_name_fails : ∀ s ∈ ["trk>"], ∀ prev t, matchAt (element "name") prev (60 :: (units s ++ t)) = none := by
  simp [matchAt, element, lit, units, run, seqs, fold]

theorem element_type_fails : ∀ s ∈ ["trk>", "name>", "/name>"], ∀ prev t,
    matchAt (element "type") prev (60 :: (units s ++ t)) = none := by
  simp [matchAt, element, lit, units, run, seqs, fold]

theorem element_time_fails : ∀ s ∈ ["ele>", "/ele>"], ∀ prev t,
    matchAt (element "time") prev (60 :: (units s ++ t)) = none := by
  simp [matchAt, element, lit, units, run, seqs, fold]

theorem point_fails : ∀ s ∈ tailNames, ∀ prev t, matchAt (point "trkpt") prev (60 :: (units s ++ t)) = none := by
  simp [tailNames, matchAt, point, lit, units, run, seqs, fold]

theorem closes_goes_on : ∀ s ∈ ["ele>", "/ele>"], ∀ prev t caps,
    run (closes "trkpt") some ⟨prev, 60 :: (units s ++ t), caps⟩ = none := by
  simp [closes, lit, units, run, seqs, fold]

/-! ## What they find -/

/-- The text of an element, where it is no markup, is what `child` reads. -/
theorem child_hit {pre : List Text} (hpre : ∀ b ∈ pre, Tagged names b)
    (hfail : ∀ s ∈ names, ∀ prev t, matchAt (element tag) prev (60 :: (units s ++ t)) = none)
    (htag : ∀ u ∈ units tag, isWord u = true) (hne : units tag ≠ []) (hbody : ∀ u ∈ body, u ≠ 60) (post : List Text) :
    child (markup (pre ++ openTag tag body :: closeTag tag [] :: post)) tag =
      (text body).map fun value => if value = [] then none else some value := by
  have hmatch : ∀ prev, matchAt (element tag) prev
      (60 :: (units tag ++ 62 :: (body ++ 60 :: 47 :: (units tag ++ [62]))) ++ markup post) =
        some ⟨some 62, markup post, [(1, body)]⟩ := by
    intro prev
    simpa using @element_hit prev (markup post) body tag htag hne hbody
  have hexec : exec (element tag) (markup (pre ++ openTag tag body :: closeTag tag [] :: post)) =
      some ⟨60 :: (units tag ++ 62 :: (body ++ 60 :: 47 :: (units tag ++ [62]))), [(1, body)]⟩ := by
    have htext : markup (pre ++ openTag tag body :: closeTag tag [] :: post) =
        markup pre ++ (60 :: (units tag ++ 62 :: (body ++ 60 :: 47 :: (units tag ++ [62]))) ++ markup post) := by
      simp [openTag, closeTag]
    rw [htext, exec, matchAll, foundFrom_tags hpre (fun u hu prev t => element_of_ne tag hu) hfail,
      foundFrom_hit (hmatch _), List.head?_cons]
  rw [child, hexec]
  rfl

/-- A point is matched with its attributes and what stands in its element. -/
theorem point_hit {attrs : Text} {inner : List Text} (hattrs : ∀ u ∈ 32 :: attrs, u ≠ 62 ∧ u ≠ 47)
    (hinner : ∀ b ∈ inner, Tagged ["ele>", "/ele>"] b) :
    matchAt (point "trkpt") prev (60 :: (units "trkpt" ++ (32 :: attrs ++ 62 :: (markup inner ++
      60 :: 47 :: (units "trkpt" ++ 62 :: rest))))) =
      some ⟨some 62, rest, [(2, markup inner), (1, 32 :: attrs)]⟩ := by
  have hclose : ∀ prev caps, run (closes "trkpt") some ⟨prev, 60 :: 47 :: (units "trkpt" ++ 62 :: rest), caps⟩ =
      some ⟨some 62, rest, caps⟩ := by
    intro prev caps
    rw [closes, run_seqs_cons, run_ltSlash, run_seqs_cons, run_lit, run_seqs_cons, run_spaces (by decide),
      run_seqs_cons, run_gt]
    rfl
  have hopen : ∀ u, u ≠ 60 → ∀ prev t caps, run (closes "trkpt") some ⟨prev, u :: t, caps⟩ = none := by
    intro u hu prev t caps
    rw [closes, run_seqs_cons]
    exact run_lit_of_ne (by decide) (by simp [units]) hu
  have hslash : ∀ u, u ≠ 47 → ∀ prev t caps, run (lit "/>") some ⟨prev, u :: t, caps⟩ = none :=
    fun u hu prev t caps => run_lit_of_ne (by decide) (by simp [units]) hu
  rw [matchAt, point, run_seqs_cons, run_lt, run_seqs_cons, run_lit, run_seqs_cons, List.cons_append,
    run_bound (by simp [units, isWord, isDigit]) (by simp [units]) (by decide), run_seqs_cons, run_group, ← List.cons_append]
  change runStar false _ [] _ _ (32 :: attrs ++ _) = _
  refine (star_until (fun c hc => ?_) fun c hc prev cs => ?_).trans (star_lazy_of_some ?_)
  · simpa using (hattrs c hc).1
  · rw [run_seqs_cons, run_alts_cons, run_alts_cons, run_alts_nil, run_seqs_nil, hslash c (hattrs c hc).2, run_seqs_cons,
      run_lit_of_ne (by decide) (by simp [units]) (hattrs c hc).1]
    rfl
  · rw [run_seqs_cons, run_alts_cons, run_alts_cons, run_seqs_nil, hslash 62 (by decide), run_seqs_cons, run_gt,
      run_seqs_cons, run_group, Option.none_or]
    rw [run_alts_nil, Option.or_none]
    simp only [captured]
    refine (star_tags (fun _ => rfl) hinner (fun u hu prev t => ?_) fun s hs prev t => ?_).trans (star_lazy_of_some ?_)
    · exact hopen u hu _ _ _
    · exact closes_goes_on s hs _ _ _
    · exact (hclose _ _).trans (by simp only [captured])

/-- What the attribute of a point is read from. -/
theorem assigned_hit {name : String} {digits : Text} (hname : ∀ u ∈ units name, isWord u = true) (hne : units name ≠ [])
    (hdigits : ∀ u ∈ digits, isQuote u = false) :
    matchAt (assigned name) (some 32) (units name ++ 61 :: 34 :: (digits ++ 34 :: rest)) =
      some ⟨some 34, rest, [(1, digits)]⟩ := by
  have heq : ∀ (k : State ℕ → Option (State ℕ)) prev t caps, run (lit "=") k ⟨prev, 61 :: t, caps⟩ = k ⟨some 61, t, caps⟩ := by
    intro k prev t caps
    simp [lit, units, seqs, run]
  have hquote : ∀ (k : State ℕ → Option (State ℕ)) prev t caps,
      run (chr isQuote) k ⟨prev, 34 :: t, caps⟩ = k ⟨some 34, t, caps⟩ := by
    intro k prev t caps
    simp [isQuote, run]
  have hbound : ∀ k : State ℕ → Option (State ℕ), run bound k ⟨some 32, units name ++ 61 :: 34 :: (digits ++ 34 :: rest), []⟩ =
      k ⟨some 32, units name ++ 61 :: 34 :: (digits ++ 34 :: rest), []⟩ := by
    intro k
    obtain ⟨u, t, ht⟩ := List.exists_cons_of_ne_nil hne
    have hu : isWord u = true := hname u (ht ▸ List.mem_cons_self)
    have hblank : isWord 32 = false := by decide
    rw [ht]
    simp [bound, run, hu, hblank]
  rw [matchAt, assigned, run_seqs_cons, hbound, run_seqs_cons, run_lit, run_seqs_cons, run_spaces (by decide),
    run_seqs_cons, heq, run_seqs_cons, run_spaces (by decide), run_seqs_cons, hquote, run_seqs_cons, run_group]
  refine star_greedy_of_some (fun u hu => by simp [hdigits u hu]) (by simp [isQuote]) ?_
  rw [run_seqs_cons, hquote, run_seqs_nil]
  simp only [captured]

/-- Attributes begin with an `l`. -/
theorem assigned_of_ne {name : String} (hname : (units name).head? = some 108) (hu : fold u ≠ 76) :
    matchAt (assigned name) prev (u :: rest) = none := by
  obtain ⟨t, ht⟩ := List.head?_eq_some_iff.1 hname
  have hfold : (fold u == fold 108) = false := by
    rw [beq_eq_false_iff_ne]
    exact hu
  rw [matchAt, assigned, run_seqs_cons]
  have hlit : ∀ k : State ℕ → Option (State ℕ), run bound (run (lit name) k) ⟨prev, u :: rest, []⟩ = none := by
    intro k
    simp only [bound, run]
    split_ifs
    · rw [lit, ht, List.map_cons, run_seqs_cons]
      simp [run, hfold]
    · rfl
  exact hlit _

/-- The first attribute of a name, behind a blank, is the one found. -/
theorem exec_assigned {name : String} {pre digits rest : Text} (hname : ∀ u ∈ units name, isWord u = true)
    (hhead : (units name).head? = some 108) (hdigits : ∀ u ∈ digits, isQuote u = false)
    (hpre : ∀ behind, foundFrom (assigned name) none (pre ++ 32 :: behind) =
      foundFrom (assigned name) (some 32) behind) :
    (exec (assigned name) (pre ++ 32 :: (units name ++ 61 :: 34 :: (digits ++ 34 :: rest)))).bind
      (fun m => number ((m.cap 1).getD [])) = number digits := by
  obtain ⟨t, ht⟩ := List.head?_eq_some_iff.1 hhead
  have hne : units name ≠ [] := by simp [ht]
  have hmatch : matchAt (assigned name) (some 32) (108 :: (t ++ 61 :: 34 :: (digits ++ [34])) ++ rest) =
      some ⟨some 34, rest, [(1, digits)]⟩ := by
    have hhit : matchAt (assigned name) (some 32) (units name ++ 61 :: 34 :: (digits ++ 34 :: rest)) =
        some ⟨some 34, rest, [(1, digits)]⟩ := assigned_hit hname hne hdigits
    rw [ht] at hhit
    simpa using hhit
  have htext : units name ++ 61 :: 34 :: (digits ++ 34 :: rest) =
      108 :: (t ++ 61 :: 34 :: (digits ++ [34])) ++ rest := by simp [ht]
  rw [exec, matchAll, hpre, htext, foundFrom_hit hmatch, List.head?_cons]
  rfl

section
variable (ts : Printed) (p : RoutePoint Double)

theorem toFixed_quote {d : ℕ} {x : Double} : ∀ u ∈ toFixed ts.toString d x, isQuote u = false := by
  intro u hu
  have := toFixed_ne ts hu
  simp [isQuote]
  omega

theorem attributeOf_lat : attributeOf (attrsOf ts.toString p) "lat" = number (toFixed ts.toString 7 p.lat) := by
  have htext : attrsOf ts.toString p = [] ++ 32 :: (units "lat" ++ 61 :: 34 :: (toFixed ts.toString 7 p.lat ++
      34 :: (units " lon=\"" ++ (toFixed ts.toString 7 p.lon ++ [34])))) := by
    simp [attrsOf, units]
  rw [attributeOf, htext]
  exact exec_assigned (by simp [units, isWord, isDigit]) (by simp [units]) (toFixed_quote ts) fun behind =>
    foundFrom_miss (assigned_of_ne (by simp [units]) (by decide))

theorem attributeOf_lon : attributeOf (attrsOf ts.toString p) "lon" = number (toFixed ts.toString 7 p.lon) := by
  have htext : attrsOf ts.toString p = (32 :: 108 :: (units "at=\"" ++ toFixed ts.toString 7 p.lat ++ [34])) ++
      32 :: (units "lon" ++ 61 :: 34 :: (toFixed ts.toString 7 p.lon ++ 34 :: [])) := by
    simp [attrsOf, units]
  rw [attributeOf, htext]
  refine exec_assigned (by simp [units, isWord, isDigit]) (by simp [units]) (toFixed_quote ts) fun behind => ?_
  have hlon : ∀ prev t, matchAt (assigned "lon") prev (108 :: (units "at=\"" ++ t)) = none := by
    intro prev t
    simp [matchAt, assigned, lit, units, seqs, run, fold, bound]
  have hpast : ∀ c ∈ units "at=\"" ++ (toFixed ts.toString 7 p.lat ++ [34, 32]), ∀ prev cs,
      matchAt (assigned "lon") prev (c :: cs) = none := by
    intro c hc prev cs
    refine assigned_of_ne (by simp [units]) ?_
    rcases List.mem_append.1 hc with hc | hc
    · revert hc
      simp only [units]
      rintro hc
      fin_cases hc <;> decide
    rcases List.mem_append.1 hc with hc | hc
    · exact fold_isNumeral (isNumeral_of_mem_toFixed hc)
    · fin_cases hc <;> decide
  have htail : (32 :: 108 :: (units "at=\"" ++ toFixed ts.toString 7 p.lat ++ [34])) ++ 32 :: behind =
      32 :: 108 :: (units "at=\"" ++ (toFixed ts.toString 7 p.lat ++ [34, 32]) ++ behind) := by simp
  rw [htail, foundFrom_miss (assigned_of_ne (by simp [units]) (by decide)), List.append_assoc, foundFrom_miss (hlon _ _),
    ← List.append_assoc, foundFrom_past hpast]
  simp

/-! ## The file is read -/

section
variable {dateParse : Text → Option ℤ}

theorem child_nil (tag : String) : child [] tag = some none := by
  have hexec : exec (element tag) [] = none := by
    refine exec_none fun prev t ht => ?_
    rw [List.suffix_nil.1 ht, matchAt, element, run_seqs_cons]
    exact run_lit_nil (by simp [units])
  rw [child, hexec]

/-- The height of a point is read, where it has one. -/
theorem child_ele : child (markup (eleTags ts.toString p)) "ele" =
    some (p.ele.map (toFixed ts.toString 1)) := by
  unfold eleTags
  cases p.ele with
  | none => exact child_nil "ele"
  | some ele =>
    have hall : ∀ u ∈ toFixed ts.toString 1 ele, IsNumeral u := fun u hu => isNumeral_of_mem_toFixed hu
    have htext : text (toFixed ts.toString 1 ele) = some (toFixed ts.toString 1 ele) := by
      have hne : ∀ u ∈ toFixed ts.toString 1 ele, u ≠ 60 ∧ u ≠ 38 := fun u hu => by
        have := isNumeral_ne (hall u hu)
        omega
      rw [text_plain hne, trim_of_forall fun u hu => isSpace_of_isNumeral (hall u hu)]
    have hnonempty : toFixed ts.toString 1 ele ≠ [] := toFixed_ne_nil (by decide) ele
    have hchild : child (markup ([] ++ openTag "ele" (toFixed ts.toString 1 ele) :: closeTag "ele" [] :: [])) "ele" =
        (text (toFixed ts.toString 1 ele)).map fun value => if value = [] then none else some value := by
      refine child_hit (fun b (hb : b ∈ []) => ?_) (fun s (hs : s ∈ []) => ?_) (by simp [units, isWord, isDigit])
        (by simp [units]) (fun u hu => (isNumeral_ne (hall u hu)).1) []
      · exact absurd hb List.not_mem_nil
      · exact absurd hs List.not_mem_nil
    rw [List.nil_append] at hchild
    rw [hchild, htext]
    simp [hnonempty]

theorem child_time : child (markup (eleTags ts.toString p)) "time" = some none := by
  have hexec : exec (element "time") (markup (eleTags ts.toString p)) = none := by
    refine exec_tags (tagged_eleTags ts p) (fun u hu prev t => element_of_ne "time" hu) element_time_fails fun prev => ?_
    rw [matchAt, element, run_seqs_cons]
    exact run_lit_nil (by simp [units])
  rw [child, hexec]

/-- A point as it is read from the file. -/
def saved (p : RoutePoint Double) : TrackPoint :=
  ⟨⟨⟨rounded 7 p.lat.val, rounded 7 p.lon.val⟩, p.ele.map fun ele => rounded 1 ele.val⟩, none, 0⟩

/-- What the match of a point is. -/
def foundPoint : Found ℕ :=
  ⟨60 :: (units "trkpt" ++ (attrsOf ts.toString p ++ 62 :: (markup (eleTags ts.toString p) ++
    60 :: 47 :: (units "trkpt" ++ [62])))), [(2, markup (eleTags ts.toString p)), (1, attrsOf ts.toString p)]⟩

theorem pointOf_found (hdate : dateParse [] = none) (hlat : |p.lat.val| ≤ 90) (hlon : |p.lon.val| ≤ 180) :
    pointOf dateParse 0 (foundPoint ts p) = some (some (saved p)) := by
  have hcap1 : (foundPoint ts p).cap 1 = some (attrsOf ts.toString p) := rfl
  have hcap2 : (foundPoint ts p).cap 2 = some (markup (eleTags ts.toString p)) := rfl
  have hlat' : |rounded 7 p.lat.val| ≤ 90 := by exact_mod_cast abs_rounded_le (n := 90) (by exact_mod_cast hlat)
  have hlon' : |rounded 7 p.lon.val| ≤ 180 := by exact_mod_cast abs_rounded_le (n := 180) (by exact_mod_cast hlon)
  have hrange : ¬ (90 < |rounded 7 p.lat.val| ∨ 180 < |rounded 7 p.lon.val|) := by
    rw [not_or]
    exact ⟨not_lt.2 hlat', not_lt.2 hlon'⟩
  simp only [pointOf, hcap1, hcap2, Option.getD_some, attributeOf_lat, attributeOf_lon, number_toFixed ts (by decide : 0 < 7),
    if_neg hrange, child_ele, child_time, Option.bind_eq_bind, Option.bind_some, Option.getD_none, hdate, Option.pure_def]
  rw [saved]
  cases p.ele with
  | none => rfl
  | some ele => simp [number_toFixed ts (by decide : 0 < 1)]

/-- A scan takes the row of a point and goes on behind it. -/
theorem foundFrom_row (more : List Text) (prev : Option ℕ) :
    ∃ prev', foundFrom (point "trkpt") prev (markup (rowTags ts.toString p ++ more)) =
      foundPoint ts p :: foundFrom (point "trkpt") prev' (markup more) := by
  obtain ⟨attrs, hattrs⟩ : ∃ attrs, attrsOf ts.toString p = 32 :: attrs := ⟨_, by simp [attrsOf, units]; rfl⟩
  have hmatch : matchAt (point "trkpt") prev (60 :: (units "trkpt" ++ (attrsOf ts.toString p ++
      62 :: (markup (eleTags ts.toString p) ++ 60 :: 47 :: (units "trkpt" ++ [62])))) ++ 10 :: markup more) =
      some ⟨some 62, 10 :: markup more, [(2, markup (eleTags ts.toString p)), (1, attrsOf ts.toString p)]⟩ := by
    have hne : ∀ u ∈ 32 :: attrs, u ≠ 62 ∧ u ≠ 47 := fun u hu => (attrsOf_ne ts (hattrs ▸ hu)).2
    rw [hattrs]
    simpa using @point_hit prev (10 :: markup more) attrs _ hne (tagged_eleTags ts p)
  have htext : markup (rowTags ts.toString p ++ more) = 60 :: (units "trkpt" ++ (attrsOf ts.toString p ++
      62 :: (markup (eleTags ts.toString p) ++ 60 :: 47 :: (units "trkpt" ++ [62])))) ++ 10 :: markup more := by
    simp [rowTags, closeTag]
  rw [htext, foundFrom_hit hmatch, foundFrom_miss (point_of_ne "trkpt" (by decide))]
  exact ⟨_, rfl⟩

/-- Every point is found, in order. -/
theorem foundFrom_rows (points : List (RoutePoint Double)) (prev : Option ℕ) :
    foundFrom (point "trkpt") prev (markup (points.flatMap (rowTags ts.toString) ++ tailTags)) =
      points.map (foundPoint ts) := by
  induction points generalizing prev with
  | nil =>
    rw [List.flatMap_nil, List.nil_append, ← List.append_nil (markup tailTags),
      foundFrom_tags tagged_tailTags (fun u hu prev t => point_of_ne "trkpt" hu) point_fails]
    refine foundFrom_nil ?_
    rw [matchAt, point, run_seqs_cons]
    exact run_lit_nil (by simp [units])
  | cons p points ih =>
    obtain ⟨prev', hrow⟩ := foundFrom_row ts p (points.flatMap (rowTags ts.toString) ++ tailTags) prev
    rw [List.flatMap_cons, List.append_assoc, hrow, ih, List.map_cons]

/-- The points behind the tag of the segment are the ones that were written. -/
theorem pointsOf_found (hdate : dateParse [] = none) {points : List (RoutePoint Double)}
    (hrange : ∀ p ∈ points, |p.lat.val| ≤ 90 ∧ |p.lon.val| ≤ 180) :
    pointsOf dateParse 0 (points.map (foundPoint ts)) = some (points.map saved) := by
  induction points with
  | nil => rfl
  | cons p points ih =>
    rw [List.forall_mem_cons] at hrange
    rw [List.map_cons, pointsOf, pointOf_found ts p hdate hrange.1.1 hrange.1.2, ih hrange.2]
    rfl

variable (name : Text) (kind : TrackKind) (points : List (RoutePoint Double))

/-- What `writeGpx` writes, parted at the tag of the segment. -/
theorem writeGpx_parts : writeGpx ts.toString name kind points =
    markup (headTags ++ openTag "trk" [] :: trackTags name kind) ++ (60 :: units "trkseg" ++
      (62 :: 10 :: markup (points.flatMap (rowTags ts.toString) ++ tailTags))) := by
  rw [writeGpx_eq]
  simp [openTag]

theorem tagged_before : ∀ b ∈ headTags ++ openTag "trk" [] :: trackTags name kind, Tagged fileNames b := by
  have htrk : Tagged ["trk>"] (openTag "trk" []) := by
    refine tagged_openTag List.mem_cons_self ?_ ?_ ?_ <;> simp [units, isWord, isDigit]
  simp only [List.forall_mem_append, List.forall_mem_cons]
  exact ⟨fun b hb => (tagged_headTags b hb).mono (by simp [fileNames, trackNames, rowNames, tailNames]),
    htrk.mono (by simp [fileNames, trackNames, rowNames, tailNames]),
    fun b hb => (tagged_trackTags b hb).mono (by simp [fileNames, trackNames, rowNames, tailNames])⟩

theorem tagged_behind : ∀ b ∈ points.flatMap (rowTags ts.toString) ++ tailTags, Tagged fileNames b := by
  simp only [List.forall_mem_append, List.mem_flatMap]
  refine ⟨?_, fun b hb => (tagged_tailTags b hb).mono (by simp [fileNames, trackNames, rowNames, tailNames])⟩
  rintro b ⟨p, -, hb⟩
  exact (tagged_rowTags ts p b hb).mono (by simp [fileNames, trackNames, rowNames, tailNames])

theorem opens_nil (c : String) : matchAt (opens c) prev [] = none := by
  rw [matchAt, opens, run_seqs_cons]
  exact run_lit_nil (by simp [units])

theorem opens_hit {c : String} {behind : Text} (hc : ∀ u ∈ units c, isWord u = true) (hne : units c ≠ []) :
    matchAt (opens c) prev (60 :: units c ++ (62 :: behind)) = some ⟨lastOf (some 60) (units c), 62 :: behind, []⟩ := by
  rw [matchAt, opens, run_seqs_cons, List.cons_append, run_lt, run_seqs_cons, run_lit, run_seqs_cons,
    run_bound hc hne (by decide), run_seqs_nil]

/-- The one segment is what stands behind its tag. -/
theorem split_writeGpx : (split (opens "trkseg") (writeGpx ts.toString name kind points)).tail =
    [62 :: 10 :: markup (points.flatMap (rowTags ts.toString) ++ tailTags)] := by
  have hbehind : ∀ prev, scan (opens "trkseg") (fun c parts => (c :: parts.headD []) :: parts.tail)
      (fun _ parts => [] :: parts) [[]] 0 prev (62 :: 10 :: markup (points.flatMap (rowTags ts.toString) ++ tailTags)) =
        [62 :: 10 :: markup (points.flatMap (rowTags ts.toString) ++ tailTags)] := by
    intro prev
    rw [scan_miss (opens_of_ne _ (by decide)), scan_miss (opens_of_ne _ (by decide)), ← List.append_nil (markup _),
      scan_tags (tagged_behind ts points) (fun u hu prev t => opens_of_ne "trkseg" hu) opens_trkseg_fails,
      scan_nil (opens_nil _), foldr_split, List.append_nil]
    rfl
  have htrkseg : ∀ u ∈ units "trkseg", isWord u = true := by simp [units, isWord, isDigit]
  rw [split, writeGpx_parts, scan_tags (tagged_before name kind) (fun u hu prev t => opens_of_ne "trkseg" hu)
    opens_trkseg_fails, scan_hit (opens_hit htrkseg (by simp [units])), hbehind, foldr_split, List.tail_cons]

/-- The points of the track. -/
theorem pointsIn_writeGpx (hdate : dateParse [] = none)
    (hrange : ∀ p ∈ points, |p.lat.val| ≤ 90 ∧ |p.lon.val| ≤ 180) :
    pointsIn dateParse (writeGpx ts.toString name kind points) "trkseg" "trkpt" = some (points.map saved) := by
  have hall : matchAll (point "trkpt") (62 :: 10 :: markup (points.flatMap (rowTags ts.toString) ++ tailTags)) =
      points.map (foundPoint ts) := by
    rw [matchAll, foundFrom_miss (point_of_ne _ (by decide)), foundFrom_miss (point_of_ne _ (by decide)), foundFrom_rows]
  rw [pointsIn, split_writeGpx, partsFrom, hall, pointsOf_found ts hdate hrange]
  simp [partsFrom]

/-- The track is matched up to the tag of its segment. -/
theorem owner_hit {tags : List Text} {behind : Text} (htags : ∀ b ∈ tags, Tagged trackNames b) :
    matchAt (ownerOf "trk" "trkseg") prev
      (60 :: (units "trk" ++ 62 :: (markup tags ++ 60 :: units "trkseg")) ++ 62 :: behind) =
      some ⟨lastOf (some 60) (units "trkseg"), 62 :: behind, []⟩ := by
  have hopen : ∀ u, u ≠ 60 → ∀ prev t caps,
      run (seqs [alts [opens "trkseg", closes "trk"]]) some ⟨prev, u :: t, caps⟩ = none := by
    intro u hu prev t caps
    rw [run_seqs_cons, run_alts_cons, run_alts_cons, run_alts_nil, opens, closes, run_seqs_cons, run_seqs_cons,
      run_lit_of_ne (by decide) (by simp [units]) hu, run_lit_of_ne (by decide) (by simp [units]) hu]
    rfl
  have hstop : ∀ prev, run (seqs [alts [opens "trkseg", closes "trk"]]) some
      ⟨prev, 60 :: (units "trkseg" ++ 62 :: behind), []⟩ =
        some ⟨lastOf (some 60) (units "trkseg"), 62 :: behind, []⟩ := by
    intro prev
    rw [run_seqs_cons, run_alts_cons, run_seqs_nil, opens, run_seqs_cons, run_lt, run_seqs_cons, run_lit, run_seqs_cons,
      run_bound (by simp [units, isWord, isDigit]) (by simp [units]) (by decide), run_seqs_nil, Option.some_or]
  have htext : 60 :: (units "trk" ++ 62 :: (markup tags ++ 60 :: units "trkseg")) ++ 62 :: behind =
      60 :: (units "trk" ++ 62 :: (markup tags ++ 60 :: (units "trkseg" ++ 62 :: behind))) := by simp
  rw [htext, matchAt, ownerOf, run_seqs_cons, opens, run_seqs_cons, run_lt, run_seqs_cons, run_lit, run_seqs_cons,
    run_bound (by simp [units, isWord, isDigit]) (by simp [units]) (by decide), run_seqs_nil, run_seqs_cons]
  change runStar false _ [] _ _ ([62] ++ (markup tags ++ _)) = _
  refine (star_until (fun _ _ => rfl) fun c hc prev cs => ?_).trans
    ((star_tags (fun _ => rfl) htags (fun u hu prev t => ?_) fun s hs prev t => ?_).trans (star_lazy_of_some (hstop _)))
  · exact hopen c (by rw [List.mem_singleton.1 hc]; decide) prev cs []
  · exact hopen u hu prev t []
  · exact owner_goes_on s hs prev t []

theorem exec_owner : exec (ownerOf "trk" "trkseg") (writeGpx ts.toString name kind points) =
    some ⟨markup (openTag "trk" [] :: trackTags name kind) ++ 60 :: units "trkseg", []⟩ := by
  have htext : writeGpx ts.toString name kind points = markup headTags ++
      (60 :: (units "trk" ++ 62 :: (markup (trackTags name kind) ++ 60 :: units "trkseg")) ++
        62 :: 10 :: markup (points.flatMap (rowTags ts.toString) ++ tailTags)) := by
    rw [writeGpx_eq]
    simp [openTag]
  rw [htext, exec, matchAll,
    foundFrom_tags tagged_headTags (fun u hu prev t => ownerOf_of_ne "trk" "trkseg" hu) ownerOf_fails,
    foundFrom_hit (owner_hit tagged_trackTags), List.head?_cons]
  simp [openTag]

/-- The file has no metadata. -/
theorem exec_metadata : exec metadata (writeGpx ts.toString name kind points) = none := by
  have htrkseg : Tagged ["trkseg>"] (openTag "trkseg" [10]) := by
    refine tagged_openTag List.mem_cons_self ?_ ?_ ?_ <;> simp [units, isWord, isDigit]
  have htags : ∀ b ∈ headTags ++ openTag "trk" [] :: trackTags name kind ++ openTag "trkseg" [10] ::
      points.flatMap (rowTags ts.toString) ++ tailTags, Tagged ("trkseg>" :: fileNames) b := by
    have hfile : fileNames ⊆ "trkseg>" :: fileNames := List.subset_cons_self _ _
    intro b hb
    rw [List.append_assoc, List.cons_append, List.mem_append, List.mem_cons] at hb
    rcases hb with hb | rfl | hb
    · exact (tagged_before name kind b hb).mono hfile
    · exact htrkseg.mono (by simp)
    · exact (tagged_behind ts points b hb).mono hfile
  rw [writeGpx_eq]
  refine exec_tags htags (fun u hu prev t => metadata_of_ne hu) metadata_fails fun prev => ?_
  rw [matchAt, metadata, run_seqs_cons, opens, run_seqs_cons]
  exact run_lit_nil (by simp [units])

theorem gpxType_read (kind : TrackKind) : text (gpxType kind) = some (gpxType kind) ∧ gpxType kind ≠ [] := by
  have htrim : Shopping.trim (gpxType kind) = gpxType kind := by cases kind <;> decide
  rw [text_plain (gpxType_plain kind), htrim]
  exact ⟨rfl, by cases kind <;> simp [gpxType, units]⟩

/-- The name is read from the track, trimmed. -/
theorem child_name : child (markup (openTag "trk" [] :: trackTags name kind) ++ 60 :: units "trkseg") "name" =
    some (if Shopping.trim name = [] then none else some (Shopping.trim name)) := by
  have hpre : ∀ b ∈ [openTag "trk" []], Tagged ["trk>"] b := by
    simp only [List.forall_mem_singleton]
    refine tagged_openTag List.mem_cons_self ?_ ?_ ?_ <;> simp [units, isWord, isDigit]
  have hchild := child_hit hpre element_name_fails (by simp [units, isWord, isDigit]) (by simp [units])
    (fun u (hu : u ∈ escapeXml name) => escapeXml_plain hu) [openTag "type" (gpxType kind), closeTag "type" [], units "trkseg"]
  have htext : markup (openTag "trk" [] :: trackTags name kind) ++ 60 :: units "trkseg" =
      markup ([openTag "trk" []] ++ openTag "name" (escapeXml name) :: closeTag "name" [] ::
        [openTag "type" (gpxType kind), closeTag "type" [], units "trkseg"]) := by
    simp [trackTags]
  rw [htext, hchild, text_escapeXml]
  rfl

/-- So is the type. -/
theorem child_type : child (markup (openTag "trk" [] :: trackTags name kind) ++ 60 :: units "trkseg") "type" =
    some (some (gpxType kind)) := by
  have hpre : ∀ b ∈ [openTag "trk" [], openTag "name" (escapeXml name), closeTag "name" []],
      Tagged ["trk>", "name>", "/name>"] b := by
    simp only [List.forall_mem_cons]
    refine ⟨tagged_openTag (s := "trk>") ?_ ?_ ?_ ?_, tagged_openTag (s := "name>") ?_ ?_ ?_ fun u hu => escapeXml_plain hu,
      tagged_closeTag (s := "/name>") ?_ ?_ ?_ ?_, by simp⟩ <;>
      simp [units, isWord, isDigit]
  have hchild := child_hit hpre element_type_fails (by simp [units, isWord, isDigit]) (by simp [units])
    (fun u hu => (gpxType_plain kind u hu).1) [units "trkseg"]
  have htext : markup (openTag "trk" [] :: trackTags name kind) ++ 60 :: units "trkseg" =
      markup ([openTag "trk" [], openTag "name" (escapeXml name), closeTag "name" []] ++
        openTag "type" (gpxType kind) :: closeTag "type" [] :: [units "trkseg"]) := by
    simp [trackTags]
  rw [htext, hchild, (gpxType_read kind).1]
  simp [(gpxType_read kind).2]

theorem guessKind_gpxType (points : List TrackPoint) (distanceM : ℚ) :
    guessKind (some (gpxType kind)) points distanceM = kind := by
  have hhike : test cycled (gpxType .hike) = false ∧ test walked (gpxType .hike) = true := by decide
  have hbike : test cycled (gpxType .bike) = true := by decide
  have hne := (gpxType_read kind).2
  cases kind with
  | hike => simp [guessKind, hhike, hne]
  | bike => simp [guessKind, hbike, hne]

/-- A file that was written is read with the points, rounded, the trimmed name and the kind it was written with. -/
theorem parseGpx_writeGpx (hdate : dateParse [] = none) (hne : points ≠ [])
    (hrange : ∀ p ∈ points, |p.lat.val| ≤ 90 ∧ |p.lon.val| ≤ 180) :
    ∃ parsed, parseGpx dateParse (writeGpx ts.toString name kind points) = some parsed ∧
      parsed.points = points.map saved ∧
      parsed.name = (if Shopping.trim name = [] then none else some (Shopping.trim name)) ∧
      ∀ distanceM, guessKind parsed.type parsed.points distanceM = kind := by
  have hparse : parseGpx dateParse (writeGpx ts.toString name kind points) = some
      ⟨points.map saved, if Shopping.trim name = [] then none else some (Shopping.trim name), some (gpxType kind)⟩ := by
    have hpoints : points.map saved ≠ [] := by simpa using hne
    simp only [parseGpx, pointsIn_writeGpx ts name kind points hdate hrange, Option.bind_eq_bind, Option.bind_some,
      if_neg hpoints, exec_owner, child_name, child_type, exec_metadata, Option.pure_def]
    by_cases hname : Shopping.trim name = []
    · simp [hname, child_nil]
    · simp [hname]
  exact ⟨_, hparse, rfl, rfl, fun distanceM => guessKind_gpxType kind _ distanceM⟩

end

end

/-- A point on the earth, with its height. -/
def summit : RoutePoint Double where
  lat := ⟨46 + 1 / 3, fun h => absurd h (by norm_num)⟩
  lon := ⟨-7, fun _ => ⟨-7, by norm_num⟩⟩
  ele := some ⟨2970, fun _ => ⟨2970, by norm_num⟩⟩

theorem parseGpx_writeGpx_summit :
    ∃ parsed, parseGpx (fun _ => none) (writeGpx Printed.plain.toString (units " </name> & ]]>") .bike [summit]) =
        some parsed ∧ parsed.points = [summit].map saved ∧
      parsed.name = (if Shopping.trim (units " </name> & ]]>") = [] then none
        else some (Shopping.trim (units " </name> & ]]>"))) ∧
      ∀ distanceM, guessKind parsed.type parsed.points distanceM = .bike := by
  refine parseGpx_writeGpx Printed.plain (units " </name> & ]]>") .bike [summit] rfl (by simp) ?_
  simp only [List.forall_mem_singleton, summit]
  norm_num

end Gpx

end JitPack
