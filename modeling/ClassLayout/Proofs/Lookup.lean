import ClassLayout.FileTree
import ClassLayout.Proofs.Plumbing
import ClassLayout.Settings.Lookup

/-!
# ClassLayout.Proofs.Lookup

Where settings are found. `Above start steps directory` says that going up from a directory to its
parent so many times leads to another one, and `Offers read directory settings` that the file in a
directory can be read and holds usable settings.

1. Settings have no flaw exactly if they are usable (`flaw?_eq_none_iff`), and the default settings
   are.
2. A file loads exactly if it can be read, its text is understood and the settings in it are usable
   (`load_eq_ok_iff`).
3. The directories that are looked at are those above the start, in their order
   (`getElem?_ancestors`), so the first one that offers settings is the nearest.
-/

namespace ClassLayout

/-! ## Usable settings -/

/-- A screen has a line, and every weight is a finite number that is not negative. -/
structure Settings.Usable (settings : Settings) : Prop where
  screen : 1 ≤ settings.screenLines
  weights : ∀ entry ∈ settings.weights.named, entry.2.isFinite = true ∧ 0 ≤ entry.2

theorem Weights.flaw?_eq_none_iff {name : String} {weight : Float} :
    Weights.flaw? name weight = none ↔ weight.isFinite = true ∧ 0 ≤ weight := by
  simp [Weights.flaw?, Weights.isUsable]

theorem Settings.flaw?_eq_none_iff {settings : Settings} :
    settings.flaw? = none ↔ settings.Usable := by
  rw [Settings.flaw?]
  split
  · next hzero =>
      have hscreen : ¬ settings.Usable := fun h => absurd h.screen (by omega)
      simp [hscreen]
  · next hscreen =>
      rw [List.findSome?_eq_none_iff]
      constructor
      · intro h
        exact ⟨by omega, fun entry hentry => Weights.flaw?_eq_none_iff.mp (h entry hentry)⟩
      · intro h entry hentry
        exact Weights.flaw?_eq_none_iff.mpr (h.weights entry hentry)

/-- What is set by default can be used. -/
theorem Settings.usable_default : ({} : Settings).Usable := by
  rw [← Settings.flaw?_eq_none_iff, Settings.flaw?, if_neg (by decide)]
  decide

/-! ## Directories -/

namespace Path

/-- Going up from a directory so many times leads to another one. -/
inductive Above : String → Nat → String → Prop
  | here (directory : String) : Above directory 0 directory
  | up {start parent directory : String} {steps : Nat} (hparent : parent? start = some parent)
      (hrest : Above parent steps directory) : Above start (steps + 1) directory

/-- The directories are those above the start, as far as the limit goes. -/
theorem getElem?_ancestors {start directory : String} {limit steps : Nat} :
    (ancestors start limit)[steps]? = some directory ↔
      steps < limit ∧ Above start steps directory := by
  induction limit generalizing start steps with
  | zero => simp [ancestors]
  | succ limit ih =>
      rw [ancestors]
      cases steps with
      | zero =>
          rw [List.getElem?_cons_zero, Option.some_inj]
          constructor
          · rintro rfl
            exact ⟨by omega, .here _⟩
          · rintro ⟨-, habove⟩
            cases habove
            rfl
      | succ steps =>
          rw [List.getElem?_cons_succ, Nat.add_lt_add_iff_right]
          cases hparent : parent? start with
          | none =>
              constructor
              · intro h
                simp at h
              · rintro ⟨-, habove⟩
                cases habove with
                | up hparent' => simp [hparent] at hparent'
          | some parent =>
              rw [ih]
              refine and_congr_right fun _ => ⟨.up hparent, ?_⟩
              intro habove
              cases habove with
              | up hparent' hrest =>
                  rw [hparent, Option.some_inj] at hparent'
                  rwa [hparent']

/-- What is found first among the directories above the start is found in the nearest one. -/
theorem exists_nearest {f : String → Option α} {start : String} {limit : Nat} {a : α}
    (h : (ancestors start limit).findSome? f = some a) :
    ∃ steps directory, steps < limit ∧ Above start steps directory ∧ f directory = some a ∧
      ∀ fewer < steps, ∀ nearer, Above start fewer nearer → f nearer = none := by
  obtain ⟨before, directory, after, hsplit, hfound, hbefore⟩ := List.findSome?_eq_some_iff.mp h
  have hdirectory : (ancestors start limit)[before.length]? = some directory := by simp [hsplit]
  obtain ⟨hlimit, habove⟩ := getElem?_ancestors.mp hdirectory
  refine ⟨before.length, directory, hlimit, habove, hfound, ?_⟩
  intro fewer hfewer nearer hnearer
  have hmem : (ancestors start limit)[fewer]? = some nearer :=
    getElem?_ancestors.mpr ⟨by omega, hnearer⟩
  rw [hsplit, List.getElem?_append_left hfewer] at hmem
  exact hbefore nearer (List.mem_of_getElem? hmem)

/-- If nothing is found, then nothing is there in any directory up to the limit. -/
theorem eq_none_of_above {f : String → Option α} {start directory : String} {limit steps : Nat}
    (h : (ancestors start limit).findSome? f = none) (hsteps : steps < limit)
    (habove : Above start steps directory) : f directory = none :=
  List.findSome?_eq_none_iff.mp h directory
    (List.mem_of_getElem? (getElem?_ancestors.mpr ⟨hsteps, habove⟩))

end Path

/-! ## Files -/

namespace Lookup

variable {read : Reader} {settings : Settings} {start path directory : String}

/-- The file in a directory can be read and understood, and the settings in it can be used. -/
def Offers (read : Reader) (directory : String) (settings : Settings) : Prop :=
  ∃ content, read (Path.join directory fileName) = .ok content ∧
    Settings.parse content = .ok settings ∧ settings.Usable

theorem Offers.usable (h : Offers read directory settings) : settings.Usable := by
  obtain ⟨_, -, -, husable⟩ := h
  exact husable

theorem load_eq_ok_iff :
    load read path = .ok settings ↔
      ∃ content, read path = .ok content ∧ Settings.parse content = .ok settings ∧
        settings.Usable := by
  have hchecked : ∀ parsed : Settings,
      parsed.checked (some path) = .ok settings ↔ parsed = settings ∧ settings.Usable := by
    intro parsed
    rw [← Settings.flaw?_eq_none_iff, Settings.checked]
    cases hflaw : parsed.flaw? with
    | none =>
        rw [Except.ok.injEq]
        exact ⟨fun heq => ⟨heq, heq ▸ hflaw⟩, And.left⟩
    | some flaw =>
        constructor
        · intro h
          contradiction
        · rintro ⟨rfl, hnone⟩
          rw [hflaw] at hnone
          contradiction
  rw [load]
  cases hread : read path with
  | error failure => simp
  | ok content =>
      dsimp only
      rw [bind_eq_ok]
      simp only [hchecked, Except.ok.injEq, exists_eq_left']
      constructor
      · rintro ⟨parsed, hparse, rfl, husable⟩
        exact ⟨hparse, husable⟩
      · rintro ⟨hparse, husable⟩
        exact ⟨settings, hparse, rfl, husable⟩

theorem toOption_load_eq_some_iff :
    (load read (Path.join directory fileName)).toOption = some settings ↔
      Offers read directory settings := by
  rw [Offers, ← load_eq_ok_iff]
  cases load read (Path.join directory fileName) <;> simp [Except.toOption]

theorem toOption_load_eq_none_iff :
    (load read (Path.join directory fileName)).toOption = none ↔
      ∀ settings, ¬ Offers read directory settings := by
  rw [Option.eq_none_iff_forall_ne_some]
  exact forall_congr' fun settings => not_congr toOption_load_eq_some_iff

/-- The first file that loads counts, whatever is said about those before it. -/
theorem firstUsable_eq_findSome? (paths : List String) :
    (firstUsable read paths).1 = paths.findSome? fun path => (load read path).toOption := by
  induction paths with
  | nil => rfl
  | cons path paths ih =>
      rw [firstUsable, List.findSome?_cons]
      cases load read path with
      | ok settings => rfl
      | error error => exact ih

theorem find_eq (read : Reader) (start : String) :
    (find read start).1 = ((Path.ancestors start depthLimit).findSome? fun directory =>
      (load read (Path.join directory fileName)).toOption).getD {} := by
  have hfirst : (firstUsable read (candidates start)).1 =
      (Path.ancestors start depthLimit).findSome? fun directory =>
        (load read (Path.join directory fileName)).toOption := by
    rw [firstUsable_eq_findSome?, candidates, List.findSome?_map]
    rfl
  rw [← hfirst, find]
  split
  · next h => rw [h, Option.getD_some]
  · next h => rw [h, Option.getD_none]

/-- A directory with settings; the file below it has a screen without lines, and the one below that
is no text. -/
def workspace : FileTree :=
  FileTree.empty.addDirectory "/work/src/main"
    |>.addFile "/work/.method-order.toml" "screen_lines_count = 25".toUTF8
    |>.addFile "/work/src/.method-order.toml" "screen_lines_count = 0".toUTF8
    |>.addFile "/work/src/main/.method-order.toml" ⟨#[0xff]⟩

/-- **Nearest settings**: whatever the files are, the settings for a directory are those in the
nearest of ten directories, the start and the ones above it, that offers any. Files that cannot be
read, understood or used are passed over, and if no directory offers settings they are the default
ones. So the settings can always be used. -/
theorem find_takes_nearest (read : Reader) (start : String) :
    let found := (find read start).1
    ((∃ steps directory, steps < 10 ∧ Path.Above start steps directory ∧
        Offers read directory found ∧
        ∀ fewer < steps, ∀ nearer, Path.Above start fewer nearer →
          ∀ settings, ¬ Offers read nearer settings) ∨
      (found = {} ∧ ∀ steps < 10, ∀ directory, Path.Above start steps directory →
        ∀ settings, ¬ Offers read directory settings)) ∧
    found.flaw? = none ∧ found.Usable := by
  intro found
  rw [Settings.flaw?_eq_none_iff, and_self]
  have hfound := find_eq read start
  cases hsearch : (Path.ancestors start depthLimit).findSome? fun directory =>
      (load read (Path.join directory fileName)).toOption with
  | some settings =>
      obtain rfl : found = settings := by simpa [hsearch] using hfound
      obtain ⟨steps, directory, hsteps, habove, hload, hnearer⟩ := Path.exists_nearest hsearch
      have hoffers := toOption_load_eq_some_iff.mp hload
      refine ⟨.inl ⟨steps, directory, hsteps, habove, hoffers, ?_⟩, hoffers.usable⟩
      intro fewer hfewer nearer habove'
      exact toOption_load_eq_none_iff.mp (hnearer fewer hfewer nearer habove')
  | none =>
      obtain hdefault : found = {} := by simpa [hsearch] using hfound
      rw [hdefault]
      refine ⟨.inr ⟨rfl, ?_⟩, Settings.usable_default⟩
      intro steps hsteps directory habove
      exact toOption_load_eq_none_iff.mp (Path.eq_none_of_above hsearch hsteps habove)

/-- Two files are passed over. -/
theorem find_takes_nearest_workspace :
    let found := (find workspace.read "/work/src/main").1
    let notices := (find workspace.read "/work/src/main").2
    (found.screenLines = 25 ∧ notices.map Notice.text =
      ["Failed to read config file /work/src/main/.method-order.toml",
       "Ignoring invalid config file /work/src/.method-order.toml",
       "Loaded config from /work/.method-order.toml"]) ∧
    (∃ steps directory, steps < 10 ∧ Path.Above "/work/src/main" steps directory ∧
      Offers workspace.read directory found) ∧
    found.Usable := by
  intro found notices
  have hfound : found.screenLines = 25 ∧ notices.map Notice.text =
      ["Failed to read config file /work/src/main/.method-order.toml",
       "Ignoring invalid config file /work/src/.method-order.toml",
       "Loaded config from /work/.method-order.toml"] := by
    decide +kernel
  obtain ⟨⟨steps, directory, hsteps, habove, hoffers, -⟩ | ⟨hdefault, -⟩, -, husable⟩ :=
    find_takes_nearest workspace.read "/work/src/main"
  · exact ⟨hfound, ⟨steps, directory, hsteps, habove, hoffers⟩, husable⟩
  · have hscreen := congrArg Settings.screenLines hdefault
    exact absurd (hfound.1.symm.trans hscreen) (by decide)

end Lookup

end ClassLayout
