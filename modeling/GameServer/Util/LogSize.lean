import GameServer.Util.HtmlFormatSink

/-!
# The size of the log file

`_currentSize` is compared with the limit before a record is written. The constructor sets it to
the size of the file with the header in it. A rotation writes a header as well, but `sink_it_` sets
`_currentSize` to the size of the record alone then, and the constructor to zero when it rotates. So
the counter is right as long as the sink never rotates, and from the first rotation on it lacks the
header (`counted_along_iff`).
-/

namespace GameServer.Util

open GameServer.Lib GameServer.Http

namespace HtmlFormatSink

/-- The counter is the size of the open file, and the files that the sink writes are within the
limit, if the one that it opened is. -/
structure Counted (cfg : SinkConfig) (s start : HtmlFormatSink) : Prop where
  counter : s.currentSize = s.size
  bounded : start.size ≤ cfg.maxSize → ∀ name file, s.files name = some file →
    (start.files name = none ∨ name = start.filename) → fileSize file ≤ cfg.maxSize

/-- The record fits into the file, by the counter. -/
def Fits (cfg : SinkConfig) (s : HtmlFormatSink) (msg : LogMsg) : Prop :=
  s.currentSize + msg.formatted.length ≤ cfg.maxSize

section Size

variable {cfg : SinkConfig} {env : SinkEnv} {files : Bytes → Option Bytes}
  {start s s' : HtmlFormatSink} {msg : LogMsg}

/-- A sink that has not rotated. -/
structure Unrotated (cfg : SinkConfig) (s start : HtmlFormatSink) : Prop where
  counted : s.Counted cfg start
  pos : 0 < s.size
  filename : s.filename = start.filename
  others : ∀ name, name ≠ s.filename → s.files name = start.files name

theorem step_of_fits (h : s.Fits cfg msg) : (htmlFormatSink cfg env files).step s msg =
    some (s.writeRecord msg.formatted (s.currentSize + msg.formatted.length)) := by
  simp only [htmlFormatSink, sinkIt, rotates_eq_false h, Bool.false_eq_true, if_false]

theorem Unrotated.step (h : s.Unrotated cfg start) (hfits : s.Fits cfg msg)
    (hs : (htmlFormatSink cfg env files).step s msg = some s') : s'.Unrotated cfg start := by
  rw [step_of_fits hfits] at hs
  cases hs
  have hsize := writeRecord_size s msg.formatted (s.currentSize + msg.formatted.length)
  have hother : ∀ name, name ≠ s.filename →
      (s.writeRecord msg.formatted (s.currentSize + msg.formatted.length)).files name =
        start.files name :=
    fun name hname => (write_files_other _ hname).trans (h.others name hname)
  refine ⟨⟨?_, fun _ name file hfile hname => ?_⟩, ?_, h.filename, hother⟩
  · rw [hsize, ← h.counted.counter]
    rfl
  · by_cases hopen : name = s.filename
    · subst hopen
      have hwritten := (write_files_self s _).symm.trans hfile
      rw [← Option.some.inj hwritten, fileSize_append]
      have hcounter := h.counted.counter
      unfold Fits at hfits
      rw [hcounter] at hfits
      exact hfits
    · rw [hother name hopen] at hfile
      rcases hname with hnone | hstart
      · rw [hnone] at hfile
        cases hfile
      · exact absurd (hstart.trans h.filename.symm) hopen
  · rw [hsize]
    exact Nat.add_pos_left h.pos _

/-- A record that does not fit makes the sink rotate, and the header is not counted. -/
theorem not_counted_step (hren : ∀ k, env.renames k = true) (h : s.Unrotated cfg start)
    (hfits : ¬s.Fits cfg msg) (hs : (htmlFormatSink cfg env files).step s msg = some s') :
    ¬s'.Counted cfg start := by
  intro hcounted
  obtain ⟨t, ht⟩ := rotateTurns_ok cfg hren cfg.maxFiles s
  simp only [htmlFormatSink, sinkIt, rotates_eq_true h.pos hfits, if_true, rotate_eq ht] at hs
  cases hs
  have hcounter := hcounted.counter
  rw [writeRecord_currentSize, writeRecord_size, begun_size] at hcounter
  have hpos := length_htmlHeader_pos
  omega

theorem opening_unrotated (cfg : SinkConfig) (env : SinkEnv) (files : Bytes → Option Bytes) :
    (opening cfg env files).Unrotated cfg (opening cfg env files) := by
  refine ⟨⟨rfl, fun hfits name file hfile hname => ?_⟩, opening_size_pos cfg env files, rfl,
    fun _ _ => rfl⟩
  rcases hname with hnone | rfl
  · rw [hnone] at hfile
    cases hfile
  · rw [size, opened, hfile] at hfits
    exact hfits

end Size

end HtmlFormatSink

open HtmlFormatSink

/-- **The size that is counted.** It is the size of the open file in every state of a run, and no
file of the sink exceeds the limit, exactly if the sink does not rotate when it is opened and each
record of the run fits into the file. -/
theorem counted_along_iff {cfg : SinkConfig} {env : SinkEnv} {files : Bytes → Option Bytes}
    {s : HtmlFormatSink} (hren : ∀ k, env.renames k = true)
    (hs : construct cfg env files = .ok s) (msgs : List LogMsg) :
    (htmlFormatSink cfg env files).Along (fun t => t.Counted cfg s) s msgs ↔
      cfg.rotateOnOpen = false ∧ (htmlFormatSink cfg env files).Meets (Fits cfg) s msgs := by
  rcases construct_eq_ok hs with ⟨hopen, rfl⟩ | ⟨hopen, t, -, rfl⟩
  · rw [hopen, eq_self, true_and]
    exact Machine.along_iff_meets (I := fun t => t.Unrotated cfg (opening cfg env files))
      (fun _ h => h.counted) (fun _ _ _ h hfits hstep => h.step hfits hstep)
      (fun _ _ _ h hfits hstep => not_counted_step hren h hfits hstep)
      (opening_unrotated cfg env files)
  · -- the file has a header in it, and the counter is zero
    refine iff_of_false (fun halong => ?_) (fun h => ?_)
    · have hcounter := halong.head.counter
      change 0 = t.begun.size at hcounter
      rw [begun_size] at hcounter
      exact Nat.ne_of_lt length_htmlHeader_pos hcounter
    · rw [hopen] at h
      cases h.1

/-- A clock that stands still, in an empty directory. -/
def stillEnv : SinkEnv := ⟨fun _ => smallLogTime false, fun _ => true⟩

theorem counted_along_iff_smallLog :
    (htmlFormatSink smallLog stillEnv fun _ => none).Along
        (fun t => t.Counted smallLog (opening smallLog stillEnv fun _ => none))
        (opening smallLog stillEnv fun _ => none) twoRecords ↔
      smallLog.rotateOnOpen = false ∧ (htmlFormatSink smallLog stillEnv fun _ => none).Meets
        (Fits smallLog) (opening smallLog stillEnv fun _ => none) twoRecords :=
  counted_along_iff (fun _ => rfl) (smallLog_constructed stillEnv) _

/-- Two records, each of which fits into the file next to the header: the second one is written after
a rotation, and the header is not counted. -/
theorem header_not_counted : ¬∀ (cfg : SinkConfig) (env : SinkEnv) (s : HtmlFormatSink)
    (msgs : List LogMsg), (∀ k, env.renames k = true) →
    construct cfg env (fun _ => none) = .ok s →
    (htmlFormatSink cfg env fun _ => none).Along (fun t => t.Counted cfg s) s msgs := by
  intro h
  have halong := h smallLog stillEnv _ twoRecords
    (fun _ => rfl) (smallLog_constructed stillEnv)
  have hfits : (opening smallLog stillEnv fun _ => none).Fits smallLog
      ⟨.info, bytes "first"⟩ := by
    unfold Fits
    rw [smallLog_currentSize]
    decide +kernel
  have hfull : ¬((opening smallLog stillEnv fun _ => none).writeRecord
      (LogMsg.formatted ⟨.info, bytes "first"⟩)
      ((opening smallLog stillEnv fun _ => none).currentSize +
        (LogMsg.formatted ⟨.info, bytes "first"⟩).length)).Fits smallLog
      ⟨.info, bytes "second"⟩ := by
    unfold Fits
    rw [writeRecord_currentSize, smallLog_currentSize]
    decide +kernel
  have hstep : (htmlFormatSink smallLog stillEnv fun _ => none).step _ _ = some _ :=
    step_of_fits hfits
  have hunrotated := (opening_unrotated smallLog stillEnv fun _ => none).step hfits hstep
  obtain ⟨t, ht⟩ := exists_step smallLog stillEnv (fun _ => none) _ _
  exact not_counted_step (fun _ => rfl) hunrotated hfull ht ((halong.2 _ hstep).2 _ ht).head

end GameServer.Util
