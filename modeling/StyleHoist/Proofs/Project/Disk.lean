import Mathlib.Data.List.Basic
import StyleHoist.Project.Tree

/-!
# Disks

A disk is a state with access to files. What lies at its places is all that is known of it, and a path names a place.
A disk writes whole if reading leaves it as it is and if a write either gives one place a new content or changes nothing
(`Disk.WritesWhole`). A project in memory is such a disk (`Project.writesWhole`).

- `Project.walk_reached`: on the way to a place that a path leads to everything is there.
- `Project.lookup_put`: giving a file a content changes nothing else, directories included.
-/

namespace StyleHoist

/-- Files that are kept in a state. -/
structure Disk (σ : Type) where
  access : Files (StateM σ)
  /-- Where files and directories may lie. -/
  Place : Type
  /-- What may lie at a place, to the byte. -/
  Content : Type
  contentAt : σ → Place → Content
  /-- The content of a file with a text. -/
  encode : Text → Content
  /-- The place of the file that a path names. -/
  place? : σ → String → Option Place

/-- From one state to another this place gets the text, and nothing else changes. -/
def Disk.Puts {σ : Type} (d : Disk σ) (before after : σ) (place : d.Place) (t : Text) : Prop :=
  d.contentAt after place = d.encode t ∧ ∀ other, other ≠ place → d.contentAt after other = d.contentAt before other

/-- A write happens whole or not at all, and nothing else changes a disk. -/
structure Disk.WritesWhole {σ : Type} (d : Disk σ) : Prop where
  isThere_keeps : ∀ path s, ((d.access.isThere path).run s).2 = s
  read_keeps : ∀ path s, ((d.access.read path).run s).2 = s
  /-- What is read is what lies at the place that the path names. -/
  read_eq : ∀ path s t, ((d.access.read path).run s).1 = .ok t →
    ∃ place, d.place? s path = some place ∧ d.contentAt s place = d.encode t
  write_refused : ∀ path t s fault, ((d.access.write path t).run s).1 = .error fault →
    ((d.access.write path t).run s).2 = s
  write_done : ∀ path t s, ((d.access.write path t).run s).1 = .ok () →
    ∃ place, d.place? s path = some place ∧ d.Puts s ((d.access.write path t).run s).2 place t

namespace Project

variable {p : Project}

/-! ## Walks -/

/-- Something lies at these names, and at all names on the way to them. -/
def Reached (p : Project) (names : List Text) : Prop :=
  ∀ outer, outer <+: names → (p.lookup outer).isSome = true

theorem reached_nil (p : Project) : p.Reached [] := by
  intro outer houter
  rw [List.prefix_nil.1 houter]
  exact lookup_root p

theorem Reached.dropLast {names : List Text} (h : p.Reached names) : p.Reached names.dropLast :=
  fun outer houter => h outer (houter.trans (List.dropLast_prefix names))

theorem Reached.concat {names : List Text} {name : Text} (h : p.Reached names)
    (hname : (p.lookup (names ++ [name])).isSome = true) : p.Reached (names ++ [name]) := by
  intro outer houter
  rcases List.prefix_concat_iff.1 houter with rfl | hinner
  · exact hname
  · exact h outer hinner

/-- Inside a project everything on the way to a place is there. -/
def Place.Reached (p : Project) : Place → Prop
  | .inside names => p.Reached names
  | .outside => True

theorem step_reached {place next : Place} {name : Text} (hplace : place.Reached p)
    (h : p.step place name = .ok next) : next.Reached p := by
  cases place with
  | outside =>
    simp only [step] at h
    split at h
    · cases h
    · split at h
      · cases h
        exact hplace
      · split at h
        · cases h
          exact hplace
        · cases h
  | inside names =>
    simp only [step] at h
    split at h
    · cases h
    · split at h
      · cases h
        exact hplace
      · split at h
        · cases h
          split
          · trivial
          · exact Reached.dropLast hplace
        · split at h
          · cases h
          · split at h
            · rename_i hname
              cases h
              exact Reached.concat hplace hname
            · cases h

/-- On the way to a place that a walk comes to everything is there. -/
theorem walk_reached {names : List Text} {place last : Place} (hplace : place.Reached p)
    (h : names.foldlM p.step place = .ok last) : last.Reached p := by
  induction names generalizing place with
  | nil =>
    cases h
    exact hplace
  | cons name names ih =>
    rw [List.foldlM_cons] at h
    cases hstep : p.step place name with
    | error fault =>
      rw [hstep] at h
      cases h
    | ok next =>
      rw [hstep] at h
      exact ih (step_reached hplace hstep) h

theorem origin_reached (p : Project) (path : Text) : (p.origin path).1.Reached p := by
  unfold origin
  split
  · exact reached_nil p
  · exact reached_nil p
  · split
    · trivial
    · exact reached_nil p

theorem resolve_reached {path : String} {place : Place} (h : p.resolve path = .ok place) : place.Reached p := by
  unfold resolve at h
  split at h
  · cases h
  · split at h
    · cases h
    · split at h
      · cases h
      · exact walk_reached (origin_reached p path.toList) h

/-! ## Writing -/

/-- Giving a file a content changes nothing else. -/
theorem lookup_put {names : List Text}
    (h : ∀ outer, outer <+: names → outer ≠ names → (p.lookup outer).isSome = true) (content : Text) :
    (p.put names content).lookup names = some (.file content) ∧
      ∀ other, other ≠ names → (p.put names content).lookup other = p.lookup other := by
  refine ⟨by simp [lookup, put], fun other hother => ?_⟩
  have hfind : ((p.entries.filter fun e => e.1 != names).find? fun e => e.1 == other) =
      p.entries.find? fun e => e.1 == other := by
    rw [List.find?_filter]
    congr 1
    funext e
    by_cases he : e.1 = other
    · simp [he, hother]
    · simp [he]
  have hne : (names == other) = false := by simpa using fun heq => hother heq.symm
  simp only [lookup, put, List.find?_cons, hne, hfind]
  cases hentry : p.entries.find? fun e => e.1 == other with
  | some e => rfl
  | none =>
    by_cases hprefix : other <+: names
    · have hthere := h other hprefix hother
      simp only [lookup, hentry] at hthere
      split at hthere
      · rename_i hdirectory
        simp [hdirectory, List.isPrefixOf_iff_prefix.2 hprefix]
      · cases hthere
    · have hnot : other.isPrefixOf names = false := by
        rw [Bool.eq_false_iff]
        exact fun h => hprefix (List.isPrefixOf_iff_prefix.1 h)
      have hany : ((p.entries.filter fun e => e.1 != names).any fun e => other.isPrefixOf e.1) =
          p.entries.any fun e => other.isPrefixOf e.1 := by
        rw [List.any_filter]
        congr 1
        funext e
        by_cases he : e.1 = names
        · simp [he, hnot]
        · simp [he]
      simp only [List.any_cons, hnot, Bool.false_or, hany]

/-- The names of the file that a path names; the file may be new in a directory that is there. -/
def place? (p : Project) (path : String) : Option (List Text) :=
  match p.resolve path with
  | .ok (.inside names) => some names
  | .error .missing =>
    match (p.origin path.toList).2.getLast?, (p.origin path.toList).2.dropLast.foldlM p.step (p.origin path.toList).1 with
    | some name, .ok (.inside directory) => some (directory ++ [name])
    | _, _ => none
  | _ => none

/-- A path that can be read names a file with what is read. -/
theorem lookup_of_read {path : String} {t : Text} (h : p.read path = .ok t) :
    ∃ names, p.place? path = some names ∧ p.lookup names = some (.file t) := by
  unfold read at h
  cases hresolve : p.resolve path with
  | error fault =>
    rw [hresolve] at h
    cases h
  | ok place =>
    rw [hresolve] at h
    cases place with
    | outside => cases h
    | inside names =>
      refine ⟨names, by simp [place?, hresolve], ?_⟩
      cases hentry : p.lookup names with
      | none =>
        simp only [bind, Except.bind, hentry] at h
        cases h
      | some entry =>
        simp only [bind, Except.bind, hentry] at h
        cases entry with
        | directory => cases h
        | file content =>
          cases h
          rfl

/-- A write that is not refused gives the file that the path names its content. -/
theorem write_eq_ok {path : String} {t : Text} {q : Project} (h : p.write path t = .ok q) :
    ∃ names, p.place? path = some names ∧ q.lookup names = some (.file t) ∧
      ∀ other, other ≠ names → q.lookup other = p.lookup other := by
  unfold write at h
  cases hresolve : p.resolve path with
  | ok place =>
    rw [hresolve] at h
    cases place with
    | outside => cases h
    | inside names =>
      refine ⟨names, by simp [place?, hresolve], ?_⟩
      simp only at h
      split at h
      · cases h
      · cases h
        exact lookup_put (fun outer houter _ => resolve_reached hresolve outer houter) t
  | error fault =>
    rw [hresolve] at h
    cases fault with
    | missing =>
      simp only at h
      cases hwalk : (p.origin path.toList).2.dropLast.foldlM p.step (p.origin path.toList).1 with
      | error fault =>
        rw [hwalk] at h
        cases h
      | ok place =>
        rw [hwalk] at h
        cases hname : (p.origin path.toList).2.getLast? with
        | none =>
          rw [hname] at h
          cases h
        | some name =>
          rw [hname] at h
          cases place with
          | outside => cases h
          | inside directory =>
            cases h
            have hdirectory := walk_reached (origin_reached p path.toList) hwalk
            refine ⟨directory ++ [name], by simp [place?, hresolve, hname, hwalk], lookup_put ?_ t⟩
            intro outer houter hne
            exact hdirectory outer ((List.prefix_concat_iff.1 houter).resolve_left hne)
    | _ => cases h

/-- A project in memory as a disk. -/
def disk (root : String) : Disk Project where
  access := files root
  Place := List Text
  Content := Option Entry
  contentAt := lookup
  encode t := some (.file t)
  place? := place?

theorem run_write (root path : String) (t : Text) (p : Project) : ((disk root).access.write path t).run p =
    match p.write path t with
    | .ok q => (.ok (), q)
    | .error fault => (.error fault, p) := by
  have hrun : ((disk root).access.write path t).run p = StateT.run (match p.write path t with
    | .ok q => do
      set q
      return .ok ()
    | .error fault => return .error fault : StateM Project (Except FileFault Unit)) p := rfl
  rw [hrun]
  cases p.write path t <;> rfl

/-- **A project in memory writes whole.** -/
theorem writesWhole (root : String) : (disk root).WritesWhole where
  isThere_keeps _ _ := rfl
  read_keeps _ _ := rfl
  read_eq _ _ _ h := lookup_of_read h
  write_refused path t p fault h := by
    rw [run_write] at h ⊢
    cases hwrite : p.write path t with
    | error fault => rfl
    | ok q =>
      rw [hwrite] at h
      cases h
  write_done path t p h := by
    rw [run_write] at h ⊢
    cases hwrite : p.write path t with
    | error fault =>
      rw [hwrite] at h
      cases h
    | ok q => exact write_eq_ok hwrite

end Project

end StyleHoist
