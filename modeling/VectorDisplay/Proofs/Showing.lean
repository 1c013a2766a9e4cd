import VectorDisplay.Proofs.Folder
import VectorDisplay.Source
set_option autoImplicit false

namespace VectorDisplay

namespace ImageSequence

theorem time_of_decode [ImageLibrary] {folder : Folder} {path : String} {p : Picture}
    (h : decode folder path = .ok (.ok p)) : p.time = none := by
  unfold decode at h
  split at h
  · cases h
  · split at h
    · cases h
    · split at h
      · cases h
      · next result hresult =>
        cases result with
        | error error => cases h
        | ok picture =>
          cases h
          unfold Picture.ofImage Picture.ofBytes Picture.ofStride at hresult
          split at hresult
          · cases hresult
          · split at hresult
            · cases hresult
            · split at hresult
              · cases hresult
              · split at hresult
                · split at hresult
                  · cases hresult
                  · cases hresult
                    rfl
                · cases hresult

theorem decode_eq_of_extends [ImageLibrary] {f g : Folder} {changed : List Path}
    (hfg : f.Extends g changed) {path : String} {p : Picture} (h : decode f path = .ok (.ok p))
    (hother : ∀ q ∈ changed, f.resolve path ≠ some q) : decode g path = .ok (.ok p) := by
  unfold decode at h ⊢
  cases hread : f.read path with
  | error error =>
    rw [hread] at h
    cases h
  | ok bytes =>
    rw [hfg.read_eq hread hother]
    rw [hread] at h
    exact h

/-- A sequence without times that gives the pictures of some files and then ends: what is left of
this pass, and some more passes. -/
structure Showing (s : ImageSequence) (upcoming : List String) : Prop where
  interval_eq : s.interval = none
  paths_ne : s.paths ≠ []
  loops_lt : s.loops < passLimit
  shown_lt : s.shown + upcoming.length < wordLimit
  exists_passes : ∃ passes, s.loops = s.pass + 1 + passes ∧
    upcoming = s.paths.drop s.position ++ (List.replicate passes s.paths).flatten

variable {s : ImageSequence} {path : String} {rest : List String} {folder : Folder} {p : Picture}

theorem showing_start {paths : List String} {loops : Nat} (hpaths : paths ≠ []) (hloops : 1 ≤ loops)
    (hlt : loops < passLimit) (hshown : loops * paths.length < wordLimit) :
    Showing { paths, loops } (List.replicate loops paths).flatten where
  interval_eq := rfl
  paths_ne := hpaths
  loops_lt := hlt
  shown_lt := by simpa using hshown
  exists_passes := by
    obtain ⟨passes, rfl⟩ := Nat.exists_eq_add_of_le' hloops
    exact ⟨passes, by dsimp only; omega, by simp [List.replicate_succ]⟩

theorem Showing.size (h : Showing s rest) (size : Size) : Showing { s with size } rest :=
  ⟨h.interval_eq, h.paths_ne, h.loops_lt, h.shown_lt, h.exists_passes⟩

theorem Showing.present [ImageLibrary] (h : Showing s (path :: rest))
    (hlt : s.position < s.paths.length) (hdecode : decode folder path = .ok (.ok p)) :
    ∃ s', s.present folder = .ok ⟨.ok (some p), s', []⟩ ∧ Showing s' rest := by
  obtain ⟨passes, hloops, hupcoming⟩ := h.exists_passes
  rw [List.drop_eq_getElem_cons hlt, List.cons_append, List.cons.injEq] at hupcoming
  obtain ⟨rfl, hrest⟩ := hupcoming
  have htime : { p with time := none } = p := by rw [← time_of_decode hdecode]
  have hshown := h.shown_lt
  rw [List.length_cons] at hshown
  have hword : VectorDisplay.word (s.shown + 1) = .ok (s.shown + 1) := if_pos (by omega)
  refine ⟨{ s with position := s.position + 1, shown := s.shown + 1 }, ?_,
    ⟨h.interval_eq, h.paths_ne, h.loops_lt, ?_, passes, hloops, hrest⟩⟩
  · simp [ImageSequence.present, hlt, hdecode, nextTime, h.interval_eq, htime, hword]
  · dsimp only
    omega

theorem Showing.next_cons [ImageLibrary] (h : Showing s (path :: rest))
    (hdecode : decode folder path = .ok (.ok p)) :
    ∃ s', s.next folder = .ok ⟨.ok (some p), s', []⟩ ∧ Showing s' rest := by
  obtain ⟨passes, hloops, hupcoming⟩ := h.exists_passes
  have hlt := h.loops_lt
  by_cases hend : s.paths.length ≤ s.position
  · rw [List.drop_eq_nil_iff.2 hend, List.nil_append] at hupcoming
    cases passes with
    | zero => cases hupcoming
    | succ passes =>
      have hlimit : s.pass + 1 < passLimit := by omega
      have hmore : ¬ s.loops ≤ s.pass + 1 := by omega
      have hempty : s.paths.isEmpty = false := by simpa using h.paths_ne
      have hagain : Showing { s with pass := s.pass + 1, position := 0 } (path :: rest) := by
        refine ⟨h.interval_eq, h.paths_ne, hlt, h.shown_lt, passes, ?_, ?_⟩
        · dsimp only
          omega
        · rw [hupcoming, List.replicate_succ, List.flatten_cons]
          rfl
      obtain ⟨s', hpresent, hshowing⟩ :=
        hagain.present (List.length_pos_iff.2 h.paths_ne) hdecode
      refine ⟨s', ?_, hshowing⟩
      rw [next, if_pos hend, if_pos hlimit]
      simpa [hempty, hmore] using hpresent
  · rw [next, if_neg hend]
    exact h.present (by omega) hdecode

theorem Showing.next_nil [ImageLibrary] (h : Showing s []) (folder : Folder) :
    ∃ s', s.next folder = .ok ⟨.ok none, s', []⟩ := by
  obtain ⟨passes, hloops, hupcoming⟩ := h.exists_passes
  obtain ⟨hdrop, hflat⟩ := List.append_eq_nil_iff.1 hupcoming.symm
  have hend : s.paths.length ≤ s.position := List.drop_eq_nil_iff.1 hdrop
  have hlt := h.loops_lt
  have hlimit : s.pass + 1 < passLimit := by omega
  refine ⟨{ s with pass := s.pass + 1 }, ?_⟩
  cases passes with
  | zero =>
    have hlast : s.loops ≤ s.pass + 1 := by omega
    have hsome : s.loops ≠ 0 := by omega
    rw [next, if_pos hend, if_pos hlimit]
    simp [hsome, hlast]
  | succ passes =>
    rw [List.replicate_succ, List.flatten_cons] at hflat
    exact absurd (List.append_eq_nil_iff.1 hflat).1 h.paths_ne

end ImageSequence

end VectorDisplay
