import GameServer.Util.HtmlFormatSink

/-!
# Log files after rotations

A rotation looks for the files with the names that the present second gives, and `reopen(true)`
empties the file with the name of the second in which the sink was made. As long as the clock shows
that second, a file with the index `i` is renamed to the index `i + 1`, the open file among them.
Once it shows another one, the open file is not found, and what is in it is lost.
`retained_along_iff` says in which runs no record is lost within `maxFiles` rotations.

The invariant is `Retaining`. A record is in one file only; in the second of the opening the index
of that file is at most the number of rotations. A rename in the middle of which the clock goes on
makes a file of a later second. There is one such file at most (`Tidy.lateUnique`), so no rename
deletes it.
-/

namespace GameServer.Util

open GameServer.Lib GameServer.Http

namespace HtmlFormatSink

/-- Every record is in a file, unless the sink has rotated more often than it keeps files. -/
def Retained (cfg : SinkConfig) (s : HtmlFormatSink) : Prop :=
  s.rotations ≤ cfg.maxFiles → ∀ n text, s.log[n]? = some text →
    ∃ name file, s.files name = some file ∧ Chunk.record n text ∈ file

/-- The number of the reading with which the loop from `i` on looks for the open file. -/
def lastReading (cfg : SinkConfig) (env : SinkEnv) : (i : Nat) → HtmlFormatSink → Nat
  | 0, s => s.readings
  | 1, s => s.readings
  | i + 2, s =>
    match s.rotateTurn cfg env (i + 2) with
    | .ok t => lastReading cfg env (i + 1) t
    | .error _ => s.readings

/-- If the record makes the sink rotate while it still has files to spare and a record is in the
open file, the clock shows the second of the opening when the rotation looks for that file. -/
def FindsOpened (cfg : SinkConfig) (env : SinkEnv) (s : HtmlFormatSink) (msg : LogMsg) : Prop :=
  s.rotates cfg msg.formatted.length = true → s.rotations < cfg.maxFiles →
    (∃ n text, Chunk.record n text ∈ s.opened) →
    env.clock (lastReading cfg env cfg.maxFiles s) = env.clock 0

/-- A second after that of the opening. -/
def Late (env : SinkEnv) (t : LocalTime) : Prop := (env.clock 0).count < t.count

/-- The clock has shown the second of the opening only. -/
def InSecond (env : SinkEnv) (s : HtmlFormatSink) : Prop :=
  ∀ k < s.readings, env.clock k = env.clock 0

/-- The name that was opened. -/
def openedName (cfg : SinkConfig) (env : SinkEnv) : Bytes :=
  cfg.name.calcFilename (env.clock 0) 0

/-! ## The clock -/

section Clock

variable {env : SinkEnv} {s : HtmlFormatSink} {j k : Nat}

theorem count_clock_le (hmono : ∀ k, (env.clock k).count ≤ (env.clock (k + 1)).count)
    (h : j ≤ k) : (env.clock j).count ≤ (env.clock k).count := by
  induction h with
  | refl => exact Nat.le_refl _
  | step _ ih => exact Nat.le_trans ih (hmono _)

/-- The second of the opening lasts, or is over for good. -/
theorem clock_eq_or_late (hmono : ∀ k, (env.clock k).count ≤ (env.clock (k + 1)).count) (k : Nat) :
    env.clock k = env.clock 0 ∨ Late env (env.clock k) := by
  rcases Nat.eq_or_lt_of_le (count_clock_le hmono (Nat.zero_le k)) with heq | hlt
  · exact .inl (LocalTime.count_inj heq).symm
  · exact .inr hlt

theorem not_late_opening : ¬Late env (env.clock 0) := Nat.lt_irrefl _

theorem clock_eq_of_le (hmono : ∀ k, (env.clock k).count ≤ (env.clock (k + 1)).count)
    (h : j ≤ k) (hk : env.clock k = env.clock 0) : env.clock j = env.clock 0 := by
  rcases clock_eq_or_late hmono j with hj | hj
  · exact hj
  · have hle := count_clock_le hmono h
    rw [hk] at hle
    exact absurd hj (Nat.not_lt.2 hle)

theorem inSecond_of_clock (hmono : ∀ k, (env.clock k).count ≤ (env.clock (k + 1)).count)
    (h : env.clock s.readings = env.clock 0) : InSecond env s :=
  fun _ hk => clock_eq_of_le hmono (Nat.le_of_lt hk) h

end Clock

/-! ## The invariant -/

/-- The files, whether a rotation is under way or not. -/
structure Tidy (cfg : SinkConfig) (env : SinkEnv) (s : HtmlFormatSink) : Prop where
  filename : s.filename = openedName cfg env
  unique : ∀ {n x y name name' file file'}, s.files name = some file →
    s.files name' = some file' → Chunk.record n x ∈ file → Chunk.record n y ∈ file' → name = name'
  numbered : ∀ {n x name file}, s.files name = some file → Chunk.record n x ∈ file →
    n < s.log.length
  lateUnique : ∀ {t u i j}, Late env t → Late env u → s.files (cfg.name.calcFilename t i) ≠ none →
    s.files (cfg.name.calcFilename u j) ≠ none →
    cfg.name.calcFilename t i = cfg.name.calcFilename u j
  lateSeen : InSecond env s → ∀ {t}, Late env t → ∀ i,
    s.files (cfg.name.calcFilename t i) = none

def Located (s : HtmlFormatSink) : Prop :=
  ∀ n text, s.log[n]? = some text → ∃ name file, s.files name = some file ∧
    Chunk.record n text ∈ file

/-- In the second of the opening, the records are in files with indices `P`. -/
def Placed (cfg : SinkConfig) (env : SinkEnv) (P : Nat → Prop) (s : HtmlFormatSink) : Prop :=
  InSecond env s → ∀ n text, s.log[n]? = some text → ∃ j file,
    s.files (cfg.name.calcFilename (env.clock 0) j) = some file ∧ Chunk.record n text ∈ file ∧ P j

/-- The indices before the turn with the target `i`: those above have been renamed. -/
def Swept (rotations i j : Nat) : Prop := (j < i ∧ j ≤ rotations) ∨ (i < j ∧ j ≤ rotations + 1)

/-! ## A turn of the loop -/

section Turn

variable {cfg : SinkConfig} {env : SinkEnv} {s s' : HtmlFormatSink} {i r : Nat}

/-- No file has the name of a target in a later second. -/
theorem Tidy.target_free (hmono : ∀ k, (env.clock k).count ≤ (env.clock (k + 1)).count)
    (h : s.Tidy cfg env) (hsrc : s.files (srcName cfg env s i) ≠ none)
    (hlate : Late env (env.clock (s.readings + 1))) :
    s.files (targetName cfg env s i) = none := by
  by_contra htarget
  rcases clock_eq_or_late hmono s.readings with hsecond | hsrcLate
  · exact htarget (h.lateSeen (inSecond_of_clock hmono hsecond) hlate (i + 1))
  · exact srcName_ne_targetName cfg env s i (h.lateUnique hsrcLate hlate hsrc htarget)

/-- A file of a later second that a rename leaves alone is not there. -/
theorem Tidy.late_other (hmono : ∀ k, (env.clock k).count ≤ (env.clock (k + 1)).count)
    (h : s.Tidy cfg env) (hsrc : s.files (srcName cfg env s i) ≠ none) {t : LocalTime} {j : Nat}
    (hlate : Late env t) (hother : cfg.name.calcFilename t j ≠ srcName cfg env s i) :
    s.files (cfg.name.calcFilename t j) = none := by
  by_contra hfile
  rcases clock_eq_or_late hmono s.readings with hsecond | hsrcLate
  · exact hfile (h.lateSeen (inSecond_of_clock hmono hsecond) hlate j)
  · exact hother (h.lateUnique hlate hsrcLate hfile hsrc)

theorem Tidy.turn (hmono : ∀ k, (env.clock k).count ≤ (env.clock (k + 1)).count)
    (h : s.Tidy cfg env) (hturn : TurnStep cfg env s i s') : s'.Tidy cfg env := by
  cases hturn with
  | absent hsrc hs' =>
    subst hs'
    exact ⟨h.filename, h.unique, h.numbered, h.lateUnique,
      fun hin => h.lateSeen fun k hk => hin k (Nat.lt_succ_of_lt hk)⟩
  | moved file hsrc hs' =>
    have hsrcne : s.files (srcName cfg env s i) ≠ none := by rw [hsrc]; exact Option.some_ne_none _
    subst hs'
    -- a file of a later second is the one that was renamed
    have hlate : ∀ {t j}, Late env t → Function.update (Function.update s.files
        (srcName cfg env s i) none) (targetName cfg env s i) (some file)
        (cfg.name.calcFilename t j) ≠ none → cfg.name.calcFilename t j = targetName cfg env s i := by
      intro t j ht hfile
      obtain ⟨found, hfound⟩ := Option.ne_none_iff_exists'.1 hfile
      rcases update_update_eq_some.1 hfound with ⟨hname, -⟩ | ⟨-, hne, hname⟩
      · exact hname
      · rw [h.late_other hmono hsrcne ht hne] at hname
        cases hname
    refine ⟨h.filename, ?_, ?_, ?_, ?_⟩
    · intro n x y name name' found found' hname hname' hx hy
      rw [update_update_eq_some] at hname hname'
      rcases hname with ⟨rfl, rfl⟩ | ⟨-, hne, hname⟩ <;>
        rcases hname' with ⟨rfl, rfl⟩ | ⟨-, hne', hname'⟩
      · rfl
      · exact absurd (h.unique hsrc hname' hx hy) hne'.symm
      · exact absurd (h.unique hname hsrc hx hy) hne
      · exact h.unique hname hname' hx hy
    · intro n x name found hname hx
      rw [update_update_eq_some] at hname
      rcases hname with ⟨rfl, rfl⟩ | ⟨-, -, hname⟩
      · exact h.numbered hsrc hx
      · exact h.numbered hname hx
    · intro t u j k ht hu hfile hfile'
      rw [hlate ht hfile, hlate hu hfile']
    · intro hin t ht j
      by_contra hfile
      have hsecond : env.clock (s.readings + 1) = env.clock 0 :=
        hin (s.readings + 1) (Nat.lt_succ_self _)
      have htarget := (calcFilename_inj (hlate ht hfile)).1
      rw [htarget, hsecond] at ht
      exact not_late_opening ht

/-- **A rename deletes no record.** -/
theorem Located.turn (hmono : ∀ k, (env.clock k).count ≤ (env.clock (k + 1)).count)
    (h : s.Tidy cfg env) (hloc : s.Located) (hplaced : s.Placed cfg env (Swept r (i + 1)))
    (hturn : TurnStep cfg env s i s') : s'.Located := by
  cases hturn with
  | absent hsrc hs' =>
    subst hs'
    exact hloc
  | moved file hsrc hs' =>
    have hsrcne : s.files (srcName cfg env s i) ≠ none := by rw [hsrc]; exact Option.some_ne_none _
    subst hs'
    intro n text hn
    obtain ⟨name, found, hname, hmem⟩ := hloc n text hn
    by_cases hmoved : name = srcName cfg env s i
    · subst hmoved
      obtain rfl : file = found := Option.some.inj (hsrc.symm.trans hname)
      exact ⟨_, _, update_update_eq_some.2 (.inl ⟨rfl, rfl⟩), hmem⟩
    · refine ⟨name, found, update_update_eq_some.2 (.inr ⟨?_, hmoved, hname⟩), hmem⟩
      rintro rfl
      rcases clock_eq_or_late hmono (s.readings + 1) with hsecond | hlate
      · -- in the second of the opening the index of the target is free
        have hin : InSecond env s := fun k hk =>
          clock_eq_of_le hmono (Nat.le_succ_of_le (Nat.le_of_lt hk)) hsecond
        obtain ⟨j, file', hfile', hmem', hj⟩ := hplaced hin n text hn
        have hindex := (calcFilename_inj (h.unique hname hfile' hmem hmem')).2
        unfold Swept at hj
        omega
      · rw [h.target_free hmono hsrcne hlate] at hname
        cases hname

theorem Placed.turn (hmono : ∀ k, (env.clock k).count ≤ (env.clock (k + 1)).count)
    (hplaced : s.Placed cfg env (Swept r (i + 1))) (hturn : TurnStep cfg env s i s') :
    s'.Placed cfg env (Swept r i) := by
  cases hturn with
  | absent hsrc hs' =>
    subst hs'
    intro hin n text hn
    obtain ⟨j, file, hfile, hmem, hj⟩ :=
      hplaced (fun k hk => hin k (Nat.lt_succ_of_lt hk)) n text hn
    have hne : j ≠ i := by
      rintro rfl
      rw [srcName, hin s.readings (Nat.lt_succ_self _), hfile] at hsrc
      cases hsrc
    refine ⟨j, file, hfile, hmem, ?_⟩
    unfold Swept at hj ⊢
    omega
  | moved file hsrc hs' =>
    subst hs'
    intro hin n text hn
    have hreading : env.clock s.readings = env.clock 0 :=
      hin s.readings (Nat.lt_succ_of_lt (Nat.lt_succ_self _))
    have hreading' : env.clock (s.readings + 1) = env.clock 0 :=
      hin (s.readings + 1) (Nat.lt_succ_self _)
    obtain ⟨j, found, hfile, hmem, hj⟩ :=
      hplaced (inSecond_of_clock hmono hreading) n text hn
    unfold Swept at hj ⊢
    by_cases hji : j = i
    · subst hji
      rw [srcName, hreading, hfile] at hsrc
      obtain rfl := Option.some.inj hsrc
      refine ⟨j + 1, found, update_update_eq_some.2 (.inl ⟨?_, rfl⟩), hmem, ?_⟩
      · rw [targetName, hreading']
      · omega
    · refine ⟨j, found, update_update_eq_some.2 (.inr ⟨?_, ?_, hfile⟩), hmem, ?_⟩
      · rw [targetName, Ne, calcFilename_eq_iff]
        omega
      · rw [srcName, Ne, calcFilename_eq_iff]
        exact fun h => hji h.2
      · omega

theorem TurnStep.same (hturn : TurnStep cfg env s i s') :
    s'.rotations = s.rotations ∧ s'.log = s.log ∧ s'.filename = s.filename := by
  cases hturn with
  | absent _ hs' =>
    subst hs'
    exact ⟨rfl, rfl, rfl⟩
  | moved _ _ hs' =>
    subst hs'
    exact ⟨rfl, rfl, rfl⟩

theorem targetName_ne_openedName (cfg : SinkConfig) (env : SinkEnv) (s : HtmlFormatSink) (i : Nat) :
    targetName cfg env s i ≠ openedName cfg env :=
  fun h => Nat.succ_ne_zero i (calcFilename_inj h).2

/-- A turn that does not look for the open file leaves it where it is, and nothing gets into it. -/
theorem TurnStep.opened_kept (hturn : TurnStep cfg env s i s')
    (hne : srcName cfg env s i ≠ openedName cfg env) :
    s'.files (openedName cfg env) = s.files (openedName cfg env) ∧
      ∀ name found, name ≠ openedName cfg env → s'.files name = some found →
        ∃ name', name' ≠ openedName cfg env ∧ s.files name' = some found := by
  cases hturn with
  | absent _ hs' =>
    subst hs'
    exact ⟨rfl, fun name found hname hfound => ⟨name, hname, hfound⟩⟩
  | moved file hsrc hs' =>
    subst hs'
    refine ⟨?_, fun name found hname hfound => ?_⟩
    · dsimp only
      rw [Function.update_of_ne (targetName_ne_openedName cfg env s i).symm,
        Function.update_of_ne hne.symm]
    · rcases update_update_eq_some.1 hfound with ⟨-, rfl⟩ | ⟨-, -, hfound⟩
      · exact ⟨_, hne, hsrc⟩
      · exact ⟨name, hname, hfound⟩

end Turn

/-! ## The loop -/

section Loop

variable {cfg : SinkConfig} {env : SinkEnv} {s t : HtmlFormatSink} {i r : Nat}

theorem rotateTurns_succ (hren : ∀ k, env.renames k = true)
    (h : s.rotateTurns cfg env (i + 1) = .ok t) :
    ∃ u, s.rotateTurn cfg env (i + 1) = .ok u ∧ TurnStep cfg env s i u ∧
      u.rotateTurns cfg env i = .ok t := by
  obtain ⟨u, hu, hturn⟩ := rotateTurn_cases cfg hren s i
  refine ⟨u, hu, hturn, ?_⟩
  rw [rotateTurns, hu] at h
  exact h

theorem rotateTurns_same (hren : ∀ k, env.renames k = true)
    (hrun : s.rotateTurns cfg env i = .ok t) :
    t.rotations = s.rotations ∧ t.log = s.log ∧ t.filename = s.filename := by
  induction i generalizing s with
  | zero =>
    cases hrun
    exact ⟨rfl, rfl, rfl⟩
  | succ i ih =>
    obtain ⟨u, -, hturn, hrest⟩ := rotateTurns_succ hren hrun
    obtain ⟨hrotations, hlog, hfilename⟩ := hturn.same
    rw [← hrotations, ← hlog, ← hfilename]
    exact ih hrest

/-- **The loop** keeps every record. -/
theorem rotateTurns_keeps (hmono : ∀ k, (env.clock k).count ≤ (env.clock (k + 1)).count)
    (hren : ∀ k, env.renames k = true) (h : s.Tidy cfg env) (hloc : s.Located)
    (hplaced : s.Placed cfg env (Swept r i)) (hrun : s.rotateTurns cfg env i = .ok t) :
    t.Tidy cfg env ∧ t.Located ∧ t.Placed cfg env (Swept r 0) := by
  induction i generalizing s with
  | zero =>
    cases hrun
    exact ⟨h, hloc, hplaced⟩
  | succ i ih =>
    obtain ⟨u, -, hturn, hrest⟩ := rotateTurns_succ hren hrun
    exact ih (h.turn hmono hturn) (hloc.turn hmono h hplaced hturn) (hplaced.turn hmono hturn) hrest

/-- **The open file after the loop**: it has been renamed if the clock shows its second when the last
turn looks for it, and otherwise it is what it was. -/
theorem rotateTurns_opened (hren : ∀ k, env.renames k = true) {file : List Chunk}
    (hfile : s.files (openedName cfg env) = some file)
    (hrun : s.rotateTurns cfg env (i + 1) = .ok t) :
    (env.clock (lastReading cfg env (i + 1) s) = env.clock 0 →
        t.files (openedName cfg env) = none) ∧
      (env.clock (lastReading cfg env (i + 1) s) ≠ env.clock 0 →
        t.files (openedName cfg env) = some file ∧
          ∀ name found, name ≠ openedName cfg env → t.files name = some found →
            ∃ name', name' ≠ openedName cfg env ∧ s.files name' = some found) := by
  induction i generalizing s with
  | zero =>
    obtain ⟨u, -, hturn, hrest⟩ := rotateTurns_succ hren hrun
    cases hrest
    rw [lastReading]
    constructor
    · intro hsecond
      have hsrcName : srcName cfg env s 0 = openedName cfg env := by
        rw [srcName, hsecond, openedName]
      cases hturn with
      | absent hsrc _ =>
        rw [hsrcName, hfile] at hsrc
        cases hsrc
      | moved _ _ hs' =>
        subst hs'
        dsimp only
        rw [Function.update_of_ne (targetName_ne_openedName cfg env s 0).symm, hsrcName,
          Function.update_self]
    · intro hsecond
      have hne : srcName cfg env s 0 ≠ openedName cfg env :=
        fun h => hsecond (calcFilename_inj h).1
      obtain ⟨hopened, hothers⟩ := hturn.opened_kept hne
      exact ⟨hopened.trans hfile, hothers⟩
  | succ i ih =>
    obtain ⟨u, hu, hturn, hrest⟩ := rotateTurns_succ hren hrun
    have hne : srcName cfg env s (i + 1) ≠ openedName cfg env :=
      fun h => Nat.succ_ne_zero i (calcFilename_inj h).2
    obtain ⟨hopened, hothers⟩ := hturn.opened_kept hne
    obtain ⟨hfound, hlost⟩ := ih (hopened.trans hfile) hrest
    have hreading : lastReading cfg env (i + 2) s = lastReading cfg env (i + 1) u := by
      rw [lastReading, hu]
    rw [hreading]
    refine ⟨hfound, fun hsecond => ⟨(hlost hsecond).1, fun name found hname hfile' => ?_⟩⟩
    obtain ⟨name', hname', hfile''⟩ := (hlost hsecond).2 name found hname hfile'
    exact hothers name' found hname' hfile''

/-- The same for the loop of a rotation. -/
theorem rotation_opened (hren : ∀ k, env.renames k = true) {file : List Chunk}
    (hfile : s.files (openedName cfg env) = some file) (hrot : s.rotations < cfg.maxFiles)
    (hrun : s.rotateTurns cfg env cfg.maxFiles = .ok t) :
    (env.clock (lastReading cfg env cfg.maxFiles s) = env.clock 0 →
        t.files (openedName cfg env) = none) ∧
      (env.clock (lastReading cfg env cfg.maxFiles s) ≠ env.clock 0 →
        t.files (openedName cfg env) = some file ∧
          ∀ name found, name ≠ openedName cfg env → t.files name = some found →
            ∃ name', name' ≠ openedName cfg env ∧ s.files name' = some found) := by
  obtain ⟨m, hm⟩ : ∃ m, cfg.maxFiles = m + 1 := ⟨cfg.maxFiles - 1, by omega⟩
  rw [hm] at hrun ⊢
  exact rotateTurns_opened hren hfile hrun

end Loop

/-! ## Records -/

/-- The invariant of the sink between two messages. -/
structure Retaining (cfg : SinkConfig) (env : SinkEnv) (s : HtmlFormatSink) : Prop where
  tidy : s.Tidy cfg env
  located : s.Located
  placed : s.Placed cfg env fun j => j ≤ s.rotations
  opened : ∃ file, s.files (openedName cfg env) = some file

section Records

variable {cfg : SinkConfig} {env : SinkEnv} {s s' t : HtmlFormatSink}

/-- The open file is written, or begun anew; a record that it did not hold is a new one. -/
theorem Tidy.rewrite (h : s.Tidy cfg env) {file' : List Chunk} (hfilename : s'.filename = s.filename)
    (hreadings : s'.readings = s.readings) (hopened : s'.files (openedName cfg env) = some file')
    (hothers : ∀ name, name ≠ openedName cfg env → s'.files name = s.files name)
    (hlog : s.log.length ≤ s'.log.length)
    (hrecords : ∀ n x, Chunk.record n x ∈ file' →
      (∃ file, s.files (openedName cfg env) = some file ∧ Chunk.record n x ∈ file) ∨
        (n = s.log.length ∧ n < s'.log.length)) : s'.Tidy cfg env := by
  have horigin : ∀ {n x name found}, s'.files name = some found → Chunk.record n x ∈ found →
      (∃ file, s.files name = some file ∧ Chunk.record n x ∈ file) ∨
        (name = openedName cfg env ∧ n = s.log.length ∧ n < s'.log.length) := by
    intro n x name found hfound hx
    by_cases hname : name = openedName cfg env
    · subst hname
      obtain rfl := Option.some.inj (hopened.symm.trans hfound)
      rcases hrecords n x hx with hold | hnew
      · exact .inl hold
      · exact .inr ⟨rfl, hnew⟩
    · rw [hothers name hname] at hfound
      exact .inl ⟨found, hfound, hx⟩
  have hlate : ∀ {t : LocalTime}, Late env t → ∀ i,
      s'.files (cfg.name.calcFilename t i) = s.files (cfg.name.calcFilename t i) := by
    intro t ht i
    refine hothers _ fun hname => ?_
    rw [(calcFilename_inj hname).1] at ht
    exact not_late_opening ht
  refine ⟨hfilename.trans h.filename, ?_, ?_, ?_, ?_⟩
  · intro n x y name name' found found' hfound hfound' hx hy
    rcases horigin hfound hx with ⟨file, hfile, hx⟩ | ⟨hname, hn, -⟩ <;>
      rcases horigin hfound' hy with ⟨file'', hfile', hy⟩ | ⟨hname', hn', -⟩
    · exact h.unique hfile hfile' hx hy
    · exact absurd (h.numbered hfile hx) (hn' ▸ Nat.lt_irrefl _)
    · exact absurd (h.numbered hfile' hy) (hn ▸ Nat.lt_irrefl _)
    · exact hname.trans hname'.symm
  · intro n x name found hfound hx
    rcases horigin hfound hx with ⟨file, hfile, hx⟩ | ⟨-, -, hn⟩
    · exact Nat.lt_of_lt_of_le (h.numbered hfile hx) hlog
    · exact hn
  · intro t u i j ht hu hi hj
    rw [hlate ht] at hi
    rw [hlate hu] at hj
    exact h.lateUnique ht hu hi hj
  · intro hin t ht i
    rw [hlate ht]
    exact h.lateSeen (fun k hk => hin k (hreadings ▸ hk)) ht i

theorem Tidy.opened_eq (h : s.Tidy cfg env) {file : List Chunk}
    (hfile : s.files (openedName cfg env) = some file) : s.opened = file := by
  rw [HtmlFormatSink.opened, h.filename, hfile, Option.getD_some]

/-- An entry of the log after a record. -/
theorem entry_concat {log : List Bytes} {formatted text : Bytes} {n : Nat}
    (hn : (log ++ [formatted])[n]? = some text) :
    log[n]? = some text ∨ (n = log.length ∧ text = formatted) := by
  rcases Nat.lt_trichotomy n log.length with hlt | rfl | hgt
  · rw [List.getElem?_append_left hlt] at hn
    exact .inl hn
  · rw [List.getElem?_concat_length] at hn
    exact .inr ⟨rfl, (Option.some.inj hn).symm⟩
  · rw [List.getElem?_eq_none] at hn
    · cases hn
    · rw [List.length_append, List.length_singleton]
      exact hgt

/-- A record is written to the open file. -/
theorem Retaining.writeRecord (h : s.Retaining cfg env) (formatted : Bytes) (newSize : Nat) :
    (s.writeRecord formatted newSize).Retaining cfg env := by
  obtain ⟨file, hfile⟩ := h.opened
  have hopened : (s.writeRecord formatted newSize).files (openedName cfg env) =
      some (file ++ [.record s.log.length formatted]) := by
    have hwrite := write_files_self s (.record s.log.length formatted)
    rw [h.tidy.opened_eq hfile, h.tidy.filename] at hwrite
    exact hwrite
  have hothers : ∀ name, name ≠ openedName cfg env →
      (s.writeRecord formatted newSize).files name = s.files name :=
    fun name hname => write_files_other _ (h.tidy.filename ▸ hname)
  have hlog : (s.writeRecord formatted newSize).log = s.log ++ [formatted] := rfl
  -- what was in a file is still in it
  have hkept : ∀ {n text name found}, s.files name = some found → Chunk.record n text ∈ found →
      ∃ found', (s.writeRecord formatted newSize).files name = some found' ∧
        Chunk.record n text ∈ found' := by
    intro n text name found hfound hmem
    by_cases hname : name = openedName cfg env
    · subst hname
      obtain rfl := Option.some.inj (hfile.symm.trans hfound)
      exact ⟨_, hopened, List.mem_append_left _ hmem⟩
    · exact ⟨found, (hothers name hname).trans hfound, hmem⟩
  have hnew : Chunk.record s.log.length formatted ∈ file ++ [.record s.log.length formatted] :=
    List.mem_append_right _ (List.mem_singleton_self _)
  refine ⟨h.tidy.rewrite rfl rfl hopened hothers (by simp [hlog]) ?_, ?_, ?_, ⟨_, hopened⟩⟩
  · intro n x hx
    rcases List.mem_append.1 hx with hx | hx
    · exact .inl ⟨file, hfile, hx⟩
    · obtain ⟨rfl, -⟩ := Chunk.record.inj (List.mem_singleton.1 hx)
      exact .inr ⟨rfl, by simp [hlog]⟩
  · intro n text hn
    rcases entry_concat hn with hn | ⟨rfl, rfl⟩
    · obtain ⟨name, found, hfound, hmem⟩ := h.located n text hn
      obtain ⟨found', hfound', hmem'⟩ := hkept hfound hmem
      exact ⟨name, found', hfound', hmem'⟩
    · exact ⟨_, _, hopened, hnew⟩
  · intro hin n text hn
    rcases entry_concat hn with hn | ⟨rfl, rfl⟩
    · obtain ⟨j, found, hfound, hmem, hj⟩ := h.placed hin n text hn
      obtain ⟨found', hfound', hmem'⟩ := hkept hfound hmem
      exact ⟨j, found', hfound', hmem', hj⟩
    · exact ⟨0, _, hopened, hnew, Nat.zero_le _⟩

/-- The file is begun anew when no record is in it. -/
theorem Tidy.begun (h : t.Tidy cfg env) (hloc : t.Located)
    (hplaced : t.Placed cfg env (Swept t.rotations 0))
    (hfree : ∀ file, t.files (openedName cfg env) = some file → ∀ n x, Chunk.record n x ∉ file) :
    t.begun.Retaining cfg env := by
  have hopened : t.begun.files (openedName cfg env) = some [.text htmlHeader] :=
    h.filename ▸ t.begun_files_self
  have hothers : ∀ name, name ≠ openedName cfg env → t.begun.files name = t.files name :=
    fun name hname => begun_files_other (h.filename ▸ hname)
  have hkept : ∀ {n text name found}, t.files name = some found → Chunk.record n text ∈ found →
      t.begun.files name = some found := by
    intro n text name found hfound hmem
    refine (hothers name ?_).trans hfound
    rintro rfl
    exact hfree found hfound n text hmem
  refine ⟨h.rewrite rfl rfl hopened hothers (Nat.le_refl _) ?_, ?_, ?_, ⟨_, hopened⟩⟩
  · intro n x hx
    cases List.mem_singleton.1 hx
  · intro n text hn
    obtain ⟨name, found, hfound, hmem⟩ := hloc n text hn
    exact ⟨name, found, hkept hfound hmem, hmem⟩
  · intro hin n text hn
    obtain ⟨j, found, hfound, hmem, hj⟩ := hplaced hin n text hn
    refine ⟨j, found, hkept hfound hmem, hmem, ?_⟩
    rcases hj with ⟨hlt, -⟩ | ⟨-, hle⟩
    · exact absurd hlt (Nat.not_lt_zero j)
    · exact hle

/-! ## Messages -/

/-- A rotation that finds the open file, or no record in it, keeps every record. -/
theorem Retaining.begun (hmono : ∀ k, (env.clock k).count ≤ (env.clock (k + 1)).count)
    (hren : ∀ k, env.renames k = true) (h : s.Retaining cfg env)
    (hrot : s.rotations < cfg.maxFiles)
    (hfinds : (∃ n text, Chunk.record n text ∈ s.opened) →
      env.clock (lastReading cfg env cfg.maxFiles s) = env.clock 0)
    (hrun : s.rotateTurns cfg env cfg.maxFiles = .ok t) : t.begun.Retaining cfg env := by
  obtain ⟨file, hfile⟩ := h.opened
  have hplaced : s.Placed cfg env (Swept s.rotations cfg.maxFiles) := by
    intro hin n text hn
    obtain ⟨j, found, hfound, hmem, hj⟩ := h.placed hin n text hn
    exact ⟨j, found, hfound, hmem, .inl ⟨Nat.lt_of_le_of_lt hj hrot, hj⟩⟩
  obtain ⟨htidy, hloc, hplaced'⟩ := rotateTurns_keeps hmono hren h.tidy h.located hplaced hrun
  rw [← (rotateTurns_same hren hrun).1] at hplaced'
  refine htidy.begun hloc hplaced' fun found hfound n x hx => ?_
  rw [h.tidy.opened_eq hfile] at hfinds
  obtain ⟨hgone, hstays⟩ := rotation_opened hren hfile hrot hrun
  by_cases hsecond : env.clock (lastReading cfg env cfg.maxFiles s) = env.clock 0
  · rw [hgone hsecond] at hfound
    cases hfound
  · rw [(hstays hsecond).1] at hfound
    obtain rfl := Option.some.inj hfound
    exact hsecond (hfinds ⟨n, x, hx⟩)

/-- The step of a message that makes the sink rotate, and of one that does not. -/
theorem step_cases (hren : ∀ k, env.renames k = true) {files : Bytes → Option Bytes} {msg : LogMsg}
    (hs : (htmlFormatSink cfg env files).step s msg = some s') :
    (s.rotates cfg msg.formatted.length = false ∧
        s' = s.writeRecord msg.formatted (s.currentSize + msg.formatted.length)) ∨
      (s.rotates cfg msg.formatted.length = true ∧
        ∃ t, s.rotateTurns cfg env cfg.maxFiles = .ok t ∧
          s' = t.begun.writeRecord msg.formatted msg.formatted.length) := by
  simp only [htmlFormatSink, sinkIt] at hs
  cases hrotates : s.rotates cfg msg.formatted.length with
  | false =>
    rw [hrotates, if_neg Bool.false_ne_true] at hs
    exact .inl ⟨rfl, (Option.some.inj hs).symm⟩
  | true =>
    obtain ⟨t, ht⟩ := rotateTurns_ok cfg hren cfg.maxFiles s
    rw [hrotates, if_pos rfl, rotate_eq ht] at hs
    exact .inr ⟨rfl, t, ht, (Option.some.inj hs).symm⟩

/-- The invariant, as long as the sink has not rotated more often than it keeps files. -/
def Kept (cfg : SinkConfig) (env : SinkEnv) (s : HtmlFormatSink) : Prop :=
  s.rotations ≤ cfg.maxFiles → s.Retaining cfg env

theorem Kept.retained (h : s.Kept cfg env) : s.Retained cfg := fun hrot => (h hrot).located

theorem Kept.step (hmono : ∀ k, (env.clock k).count ≤ (env.clock (k + 1)).count)
    (hren : ∀ k, env.renames k = true) {files : Bytes → Option Bytes} {msg : LogMsg}
    (h : s.Kept cfg env) (hfinds : s.FindsOpened cfg env msg)
    (hs : (htmlFormatSink cfg env files).step s msg = some s') : s'.Kept cfg env := by
  intro hrot
  rcases step_cases hren hs with ⟨-, rfl⟩ | ⟨hrotates, t, ht, rfl⟩
  · exact (h hrot).writeRecord _ _
  · change t.rotations + 1 ≤ cfg.maxFiles at hrot
    rw [(rotateTurns_same hren ht).1] at hrot
    have hretaining : s.Retaining cfg env := h (Nat.le_of_lt hrot)
    exact (hretaining.begun hmono hren hrot (hfinds hrotates hrot) ht).writeRecord _ _

/-- **The open file is not found**: the records in it are in no file after the rotation. -/
theorem Tidy.lost (hren : ∀ k, env.renames k = true) (h : s.Tidy cfg env) {file : List Chunk}
    (hfile : s.files (openedName cfg env) = some file) (hrot : s.rotations < cfg.maxFiles)
    (hrun : s.rotateTurns cfg env cfg.maxFiles = .ok t)
    (hsecond : env.clock (lastReading cfg env cfg.maxFiles s) ≠ env.clock 0) {n newSize : Nat}
    {x y name formatted : Bytes} {found : List Chunk} (hmem : Chunk.record n x ∈ file)
    (hfound : (t.begun.writeRecord formatted newSize).files name = some found) :
    Chunk.record n y ∉ found := by
  intro hmem'
  obtain ⟨-, hlog, hfilename⟩ := rotateTurns_same hren hrun
  rw [h.filename] at hfilename
  obtain ⟨-, hothers⟩ := (rotation_opened hren hfile hrot hrun).2 hsecond
  by_cases hname : name = openedName cfg env
  · -- the file has been begun anew
    rw [hname, ← hfilename] at hfound
    have hwrite := write_files_self t.begun (.record t.begun.log.length formatted)
    obtain rfl := Option.some.inj (hwrite.symm.trans hfound)
    rw [begun_opened] at hmem'
    rcases List.mem_append.1 hmem' with hheader | hnew
    · cases List.mem_singleton.1 hheader
    · have hlength : n = t.log.length := (Chunk.record.inj (List.mem_singleton.1 hnew)).1
      have hn := h.numbered hfile hmem
      rw [hlength, hlog] at hn
      exact Nat.lt_irrefl _ hn
  · have hname' : name ≠ t.filename := hfilename ▸ hname
    have hbegun : t.files name = some found :=
      (begun_files_other hname').symm.trans
        ((write_files_other (s := t.begun) _ hname').symm.trans hfound)
    obtain ⟨name', hother, hfound'⟩ := hothers name found hname hbegun
    exact hother (h.unique hfound' hfile hmem' hmem)

theorem Kept.not_retained_step (hren : ∀ k, env.renames k = true) {files : Bytes → Option Bytes}
    {msg : LogMsg} (h : s.Kept cfg env) (hfinds : ¬s.FindsOpened cfg env msg)
    (hs : (htmlFormatSink cfg env files).step s msg = some s') : ¬s'.Retained cfg := by
  obtain ⟨hrotates, hfinds⟩ := Classical.not_imp.1 hfinds
  obtain ⟨hrot, hfinds⟩ := Classical.not_imp.1 hfinds
  obtain ⟨⟨n, text, hmem⟩, hsecond⟩ := Classical.not_imp.1 hfinds
  have hretaining : s.Retaining cfg env := h (Nat.le_of_lt hrot)
  obtain ⟨file, hfile⟩ := hretaining.opened
  rw [hretaining.tidy.opened_eq hfile] at hmem
  rcases step_cases hren hs with ⟨hnot, -⟩ | ⟨-, t, ht, rfl⟩
  · rw [hrotates] at hnot
    cases hnot
  · intro hretained
    obtain ⟨hrotations, hlog, -⟩ := rotateTurns_same hren ht
    have hn : n < s.log.length := hretaining.tidy.numbered hfile hmem
    have hentry : (t.log ++ [msg.formatted])[n]? = some s.log[n] := by
      rw [hlog, List.getElem?_append_left hn, List.getElem?_eq_getElem hn]
    have hle : t.rotations + 1 ≤ cfg.maxFiles := by omega
    obtain ⟨name, found, hfound, hmem'⟩ := hretained hle n s.log[n] hentry
    exact hretaining.tidy.lost hren hfile hrot ht hsecond hmem hfound hmem'

end Records

/-! ## The opening -/

section Opening

variable {cfg : SinkConfig} {env : SinkEnv} {files : Bytes → Option Bytes} {s : HtmlFormatSink}

theorem opening_files (cfg : SinkConfig) (env : SinkEnv) (files : Bytes → Option Bytes) :
    (opening cfg env files).files = Function.update (unopened files).files (openedName cfg env)
      (some (((unopened files).files (openedName cfg env)).getD [] ++ [.text htmlHeader])) := by
  simp [opening, write, openFile, calcFilename, opened, openedName, unopened]

/-- No record is in a file before the first message. -/
theorem opening_no_record {name : Bytes} {file : List Chunk}
    (h : (opening cfg env files).files name = some file) (n : Nat) (x : Bytes) :
    Chunk.record n x ∉ file := by
  have hold : ∀ {name file}, (unopened files).files name = some file → Chunk.record n x ∉ file := by
    intro name file hfile hx
    obtain ⟨s, -, rfl⟩ := Option.map_eq_some_iff.1 hfile
    cases List.mem_singleton.1 hx
  rw [opening_files] at h
  by_cases hname : name = openedName cfg env
  · subst hname
    rw [Function.update_self] at h
    obtain rfl := Option.some.inj h
    intro hx
    rcases List.mem_append.1 hx with hx | hx
    · cases hfile : (unopened files).files (openedName cfg env) with
      | none =>
        rw [hfile] at hx
        cases hx
      | some found =>
        rw [hfile] at hx
        exact hold hfile hx
    · cases List.mem_singleton.1 hx
  · rw [Function.update_of_ne hname] at h
    exact hold h

/-- In a directory without files of later seconds. -/
theorem opening_retaining (hfresh : ∀ t, Late env t → ∀ i,
    files (cfg.name.calcFilename t i) = none) : (opening cfg env files).Retaining cfg env := by
  have hlate : ∀ {t : LocalTime}, Late env t → ∀ i,
      (opening cfg env files).files (cfg.name.calcFilename t i) = none := by
    intro t ht i
    have hne : cfg.name.calcFilename t i ≠ openedName cfg env := by
      intro hname
      rw [(calcFilename_inj hname).1] at ht
      exact not_late_opening ht
    rw [opening_files, Function.update_of_ne hne]
    exact Option.map_eq_none_iff.2 (hfresh t ht i)
  refine ⟨⟨rfl, ?_, ?_, ?_, fun _ => hlate⟩, ?_, ?_, ?_⟩
  · intro n x y name name' file file' hfile _ hx _
    exact absurd hx (opening_no_record hfile n x)
  · intro n x name file hfile hx
    exact absurd hx (opening_no_record hfile n x)
  · intro t u i j ht _ hfile _
    exact absurd (hlate ht i) hfile
  · intro n text hn
    cases hn
  · intro _ n text hn
    cases hn
  · rw [opening_files, Function.update_self]
    exact ⟨_, rfl⟩

/-- **The sink when it is made**, also if it rotates at once. -/
theorem construct_kept (hmono : ∀ k, (env.clock k).count ≤ (env.clock (k + 1)).count)
    (hren : ∀ k, env.renames k = true)
    (hfresh : ∀ t, Late env t → ∀ i, files (cfg.name.calcFilename t i) = none)
    (hs : construct cfg env files = .ok s) : s.Kept cfg env := by
  have hopening : (opening cfg env files).Retaining cfg env := opening_retaining hfresh
  rcases construct_eq_ok hs with ⟨-, rfl⟩ | ⟨-, t, ht, rfl⟩
  · exact fun _ => hopening
  · intro hrot
    change t.rotations + 1 ≤ cfg.maxFiles at hrot
    rw [(rotateTurns_same hren ht).1] at hrot
    have hbegun : t.begun.Retaining cfg env := by
      refine hopening.begun hmono hren hrot ?_ ht
      rintro ⟨n, text, hmem⟩
      obtain ⟨file, hfile⟩ := hopening.opened
      rw [hopening.tidy.opened_eq hfile] at hmem
      exact absurd hmem (opening_no_record hfile n text)
    exact ⟨⟨hbegun.tidy.filename, hbegun.tidy.unique, hbegun.tidy.numbered,
      hbegun.tidy.lateUnique, hbegun.tidy.lateSeen⟩, hbegun.located, hbegun.placed, hbegun.opened⟩

end Opening

end HtmlFormatSink

open HtmlFormatSink

/-- **Rotations and records.** In every state of a run every record is in a file, unless the sink has
rotated more than `maxFiles` times, exactly if each rotation up to then that has a record to move
finds the open file: the clock still shows the second of the opening when the rotation looks for
it. -/
theorem retained_along_iff {cfg : SinkConfig} {env : SinkEnv} {files : Bytes → Option Bytes}
    {s : HtmlFormatSink} (hmono : ∀ k, (env.clock k).count ≤ (env.clock (k + 1)).count)
    (hren : ∀ k, env.renames k = true)
    (hfresh : ∀ t, Late env t → ∀ i, files (cfg.name.calcFilename t i) = none)
    (hs : construct cfg env files = .ok s) (msgs : List LogMsg) :
    (htmlFormatSink cfg env files).Along (Retained cfg) s msgs ↔
      (htmlFormatSink cfg env files).Meets (FindsOpened cfg env) s msgs :=
  Machine.along_iff_meets (I := Kept cfg env) (fun _ h => h.retained)
    (fun _ _ _ h hfinds hstep => h.step hmono hren hfinds hstep)
    (fun _ _ _ h hfinds hstep => h.not_retained_step hren hfinds hstep)
    (construct_kept hmono hren hfresh hs)

/-- The clock goes on by a second after the first reading. -/
def tickingEnv : SinkEnv := ⟨fun k => smallLogTime (k != 0), fun _ => true⟩

theorem tickingEnv_mono (k : Nat) :
    (tickingEnv.clock k).count ≤ (tickingEnv.clock (k + 1)).count := by
  cases k with
  | zero => decide
  | succ k => exact Nat.le_refl _

theorem retained_along_iff_smallLog :
    (htmlFormatSink smallLog tickingEnv fun _ => none).Along (Retained smallLog)
        (opening smallLog tickingEnv fun _ => none) twoRecords ↔
      (htmlFormatSink smallLog tickingEnv fun _ => none).Meets (FindsOpened smallLog tickingEnv)
        (opening smallLog tickingEnv fun _ => none) twoRecords :=
  retained_along_iff tickingEnv_mono (fun _ => rfl) (fun _ _ _ => rfl)
    (smallLog_constructed tickingEnv) _

/-- Two records; the second one makes the sink rotate, a second after the opening, and the file with
the first one is emptied. -/
theorem record_lost : ¬∀ (cfg : SinkConfig) (env : SinkEnv) (s : HtmlFormatSink)
    (msgs : List LogMsg), 1 ≤ cfg.maxFiles →
    (∀ k, (env.clock k).count ≤ (env.clock (k + 1)).count) → (∀ k, env.renames k = true) →
    construct cfg env (fun _ => none) = .ok s →
    (htmlFormatSink cfg env fun _ => none).Along (Retained cfg) s msgs := by
  intro h
  have halong := h smallLog tickingEnv _ twoRecords
    (Nat.le_refl 1) tickingEnv_mono (fun _ => rfl) (smallLog_constructed tickingEnv)
  have hkept : (opening smallLog tickingEnv fun _ => none).Kept smallLog tickingEnv :=
    fun _ => opening_retaining fun _ _ _ => rfl
  have hnot : (opening smallLog tickingEnv fun _ => none).rotates smallLog
      (LogMsg.formatted ⟨.info, bytes "first"⟩).length = false :=
    rotates_eq_false (by rw [smallLog_currentSize]; decide +kernel)
  obtain ⟨s, hs⟩ := exists_step smallLog tickingEnv (fun _ => none)
    (opening smallLog tickingEnv fun _ => none) ⟨.info, bytes "first"⟩
  have hkept' : s.Kept smallLog tickingEnv := by
    refine hkept.step tickingEnv_mono (fun _ => rfl) (fun hrotates => ?_) hs
    rw [hnot] at hrotates
    cases hrotates
  have hlost : ¬s.FindsOpened smallLog tickingEnv ⟨.info, bytes "second"⟩ := by
    rcases step_cases (fun _ => rfl) hs with ⟨-, rfl⟩ | ⟨hrotates, -⟩
    · intro hfinds
      refine absurd (hfinds (rotates_eq_true ?_ ?_) Nat.zero_lt_one
        ⟨0, LogMsg.formatted ⟨.info, bytes "first"⟩, ?_⟩) (by decide)
      · rw [writeRecord_size]
        exact Nat.add_pos_left (opening_size_pos ..) _
      · rw [writeRecord_currentSize, smallLog_currentSize]
        decide +kernel
      · rw [writeRecord_opened]
        exact List.mem_append_right _ (List.mem_singleton_self _)
    · rw [hnot] at hrotates
      cases hrotates
  obtain ⟨t, ht⟩ := exists_step smallLog tickingEnv (fun _ => none) s ⟨.info, bytes "second"⟩
  exact hkept'.not_retained_step (fun _ => rfl) hlost ht ((halong.2 _ hs).2 _ ht).head

end GameServer.Util
