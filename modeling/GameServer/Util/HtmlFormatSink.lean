import Mathlib.Logic.Function.Basic
import GameServer.Lib.Machine
import GameServer.Util.LogFilename

/-!
# `HtmlFormatSink`

A log sink that writes formatted records to a file and, when the file would grow over its limit,
renames the older files and begins the file anew. The files are a map from names to what was written
to them. Every name is computed from the clock, at the time it is needed: the readings are a stream,
and `readings` counts those taken; the outcomes of `rename` are a stream likewise.

`file_helper` is that of spdlog: `open` appends to the file or makes it, `reopen(true)` empties the
file with the name that was opened, `size` counts all bytes of it.

`rotations` counts the rotations and `log` holds the records in the order in which they were
written; the code has neither. A record in a file has its number in `log`.

`rotateTurn_cases` says what a turn of the loop of `rotate_` does when its rename succeeds.
-/

namespace GameServer.Util

open GameServer.Lib GameServer.Http

/-- What is written to a file at once. -/
inductive Chunk where
  | text (s : Bytes)
  | record (n : Nat) (s : Bytes)
  deriving DecidableEq, Repr

def Chunk.bytes : Chunk → Bytes
  | text s => s
  | record _ s => s

/-- The number of bytes of a file. -/
def fileSize (file : List Chunk) : Nat := (file.map fun chunk => chunk.bytes.length).sum

inductive LogLevel where
  | trace | debug | info | warn | err | critical | off | nLevels
  deriving DecidableEq, Repr

def getLogLevelHtmlPrefix : LogLevel → Bytes
  | .trace => bytes "<font color=\" #DCDFE4\">"
  | .debug => bytes "<font color=\" #56B6C2\">"
  | .info => bytes "<font color=\" #98C379\">"
  | .warn => bytes "<font color=\" #E5C07B\">"
  | .err => bytes "<font color=\" #E06C75\">"
  | .critical => bytes "<font color=\" #DCDFE4\" style=\"background-color:#E06C75;\">"
  | .off | .nLevels => []

/-- A message, with the text that the formatter makes of it. -/
structure LogMsg where
  level : LogLevel
  payload : Bytes
  deriving DecidableEq, Repr

def LogMsg.formatted (msg : LogMsg) : Bytes :=
  getLogLevelHtmlPrefix msg.level ++ (msg.payload ++ bytes "<br></font>")

def htmlHeader : Bytes :=
  bytes r##"<html>
                <head>
                <meta http-equiv="content-type" content="text/html; charset-gb2312">
                <title>Html Output</title>
                </head>
                <body>
                <font face="Fixedsys" size="2" color="#0000FF">"##

/-- The arguments of the constructor. -/
structure SinkConfig where
  name : LogName
  maxSize : Nat
  maxFiles : Nat
  rotateOnOpen : Bool
  deriving DecidableEq, Repr

structure SinkEnv where
  clock : Nat → LocalTime
  /-- Whether a call of `rename` succeeds. -/
  renames : Nat → Bool

structure HtmlFormatSink where
  files : Bytes → Option (List Chunk)
  /-- The name that was opened. -/
  filename : Bytes
  currentSize : Nat
  readings : Nat
  renameCalls : Nat
  rotations : Nat
  log : List Bytes

/-- An exception, with the sink that it leaves. -/
structure Thrown where
  message : Bytes
  sink : HtmlFormatSink

namespace HtmlFormatSink

/-! ## `file_helper` -/

def openFile (s : HtmlFormatSink) (filename : Bytes) (truncate : Bool) : HtmlFormatSink :=
  { s with
    files := Function.update s.files filename
      (some (if truncate then [] else (s.files filename).getD []))
    filename }

def reopen (s : HtmlFormatSink) (truncate : Bool) : HtmlFormatSink :=
  s.openFile s.filename truncate

/-- What is in the open file. -/
def opened (s : HtmlFormatSink) : List Chunk := (s.files s.filename).getD []

def write (s : HtmlFormatSink) (chunk : Chunk) : HtmlFormatSink :=
  { s with files := Function.update s.files s.filename (some (s.opened ++ [chunk])) }

def size (s : HtmlFormatSink) : Nat := fileSize s.opened

/-! ## The sink -/

section Code

variable (cfg : SinkConfig) (env : SinkEnv)

def calcFilename (s : HtmlFormatSink) (index : Nat) : Bytes × HtmlFormatSink :=
  (cfg.name.calcFilename (env.clock s.readings) index, { s with readings := s.readings + 1 })

/-- `rename_file_`: the target is deleted before. -/
def renameFile (s : HtmlFormatSink) (src target : Bytes) : Bool × HtmlFormatSink :=
  let files := Function.update s.files target none
  let s := { s with files, renameCalls := s.renameCalls + 1 }
  if env.renames (s.renameCalls - 1) then
    (true, { s with files := Function.update (Function.update files src none) target (files src) })
  else (false, s)

/-- A turn of the loop of `rotate_`. A rename that fails is tried once more. -/
def rotateTurn (s : HtmlFormatSink) (i : Nat) : Except Thrown HtmlFormatSink :=
  let (src, s) := s.calcFilename cfg env (i - 1)
  if (s.files src).isNone then .ok s
  else
    let (target, s) := s.calcFilename cfg env i
    let (renamed, s) := s.renameFile env src target
    if renamed then .ok s
    else
      let (renamed, s) := s.renameFile env src target
      if renamed then .ok s
      else .error ⟨bytes "rotating_file_sink: failed renaming " ++ src ++ bytes " to " ++ target,
        { s.reopen true with currentSize := 0 }⟩

/-- The loop, from `i` down to one. -/
def rotateTurns : (i : Nat) → HtmlFormatSink → Except Thrown HtmlFormatSink
  | 0, s => .ok s
  | i + 1, s => do
    let s ← s.rotateTurn cfg env (i + 1)
    rotateTurns i s

/-- `rotate_`. -/
def rotate (s : HtmlFormatSink) : Except Thrown HtmlFormatSink := do
  let s ← s.rotateTurns cfg env cfg.maxFiles
  let s := (s.reopen true).write (.text htmlHeader)
  pure { s with rotations := s.rotations + 1 }

/-- A sink without an open file, in a directory with these files. -/
def unopened (files : Bytes → Option Bytes) : HtmlFormatSink :=
  { files := fun name => (files name).map fun s => [.text s]
    filename := [], currentSize := 0, readings := 0, renameCalls := 0, rotations := 0, log := [] }

/-- What the constructor does up to the rotation. -/
def opening (files : Bytes → Option Bytes) : HtmlFormatSink :=
  let (filename, s) := (unopened files).calcFilename cfg env 0
  let s := (s.openFile filename false).write (.text htmlHeader)
  { s with currentSize := s.size }

/-- The constructor. -/
def construct (files : Bytes → Option Bytes) : Except Bytes HtmlFormatSink :=
  if cfg.maxSize = 0 then
    .error (bytes "rotating sink constructor: max_size arg cannot be zero")
  else if 200000 < cfg.maxFiles then
    .error (bytes "rotating sink constructor: max_files arg cannot exceed 200000")
  else
    let s := opening cfg env files
    if cfg.rotateOnOpen && 0 < s.currentSize then
      match s.rotate cfg env with
      | .ok s => .ok { s with currentSize := 0 }
      | .error e => .error e.message
    else .ok s

/-- Whether a record of this length makes the sink rotate first. -/
def rotates (s : HtmlFormatSink) (length : Nat) : Bool :=
  cfg.maxSize < s.currentSize + length && 0 < s.size

/-- The end of `sink_it_`. -/
def writeRecord (s : HtmlFormatSink) (formatted : Bytes) (newSize : Nat) : HtmlFormatSink :=
  { s.write (.record s.log.length formatted) with
    currentSize := newSize
    log := s.log ++ [formatted] }

/-- `sink_it_`. -/
def sinkIt (s : HtmlFormatSink) (msg : LogMsg) : Except Thrown HtmlFormatSink :=
  if s.rotates cfg msg.formatted.length then do
    let s ← s.rotate cfg env
    pure (s.writeRecord msg.formatted msg.formatted.length)
  else .ok (s.writeRecord msg.formatted (s.currentSize + msg.formatted.length))

end Code

end HtmlFormatSink

/-- The sink, from the constructor on. The logger goes on after an exception. -/
def htmlFormatSink (cfg : SinkConfig) (env : SinkEnv) (files : Bytes → Option Bytes) :
    Machine HtmlFormatSink LogMsg where
  init s := HtmlFormatSink.construct cfg env files = .ok s
  step s msg :=
    match s.sinkIt cfg env msg with
    | .ok s => some s
    | .error e => some e.sink

namespace HtmlFormatSink

/-! ## Files -/

section Files

variable {s : HtmlFormatSink} {name : Bytes}

@[simp] theorem fileSize_append (file : List Chunk) (chunk : Chunk) :
    fileSize (file ++ [chunk]) = fileSize file + chunk.bytes.length := by
  simp [fileSize]

theorem fileSize_singleton (chunk : Chunk) : fileSize [chunk] = chunk.bytes.length :=
  List.sum_singleton

@[simp] theorem openFile_files_self (s : HtmlFormatSink) (name : Bytes) (truncate : Bool) :
    (s.openFile name truncate).files name =
      some (if truncate then [] else (s.files name).getD []) :=
  Function.update_self ..

@[simp] theorem write_filename (s : HtmlFormatSink) (chunk : Chunk) :
    (s.write chunk).filename = s.filename := rfl

@[simp] theorem write_opened (s : HtmlFormatSink) (chunk : Chunk) :
    (s.write chunk).opened = s.opened ++ [chunk] :=
  congrArg (Option.getD · []) (Function.update_self s.filename _ s.files)

theorem write_files_self (s : HtmlFormatSink) (chunk : Chunk) :
    (s.write chunk).files s.filename = some (s.opened ++ [chunk]) := Function.update_self ..

theorem write_files_other (chunk : Chunk) (h : name ≠ s.filename) :
    (s.write chunk).files name = s.files name := Function.update_of_ne h ..

theorem openFile_opened (s : HtmlFormatSink) (name : Bytes) (truncate : Bool) :
    (s.openFile name truncate).opened = if truncate then [] else (s.files name).getD [] :=
  congrArg (Option.getD · []) (openFile_files_self s name truncate)

theorem reopen_opened (s : HtmlFormatSink) : (s.reopen true).opened = [] :=
  openFile_opened s s.filename true

theorem reopen_files_other (h : name ≠ s.filename) :
    (s.reopen true).files name = s.files name := Function.update_of_ne h ..

theorem writeRecord_opened (s : HtmlFormatSink) (formatted : Bytes) (newSize : Nat) :
    (s.writeRecord formatted newSize).opened = s.opened ++ [.record s.log.length formatted] :=
  write_opened s (.record s.log.length formatted)

theorem size_write (s : HtmlFormatSink) (chunk : Chunk) :
    (s.write chunk).size = s.size + chunk.bytes.length := by
  rw [size, write_opened, fileSize_append, size]

theorem writeRecord_currentSize (s : HtmlFormatSink) (formatted : Bytes) (newSize : Nat) :
    (s.writeRecord formatted newSize).currentSize = newSize := rfl

theorem writeRecord_size (s : HtmlFormatSink) (formatted : Bytes) (newSize : Nat) :
    (s.writeRecord formatted newSize).size = s.size + formatted.length :=
  size_write s (.record s.log.length formatted)

theorem rotates_eq_false {cfg : SinkConfig} {length : Nat}
    (h : s.currentSize + length ≤ cfg.maxSize) : s.rotates cfg length = false := by
  rw [rotates, decide_eq_false (Nat.not_lt.2 h), Bool.false_and]

theorem rotates_eq_true {cfg : SinkConfig} {length : Nat} (hpos : 0 < s.size)
    (h : ¬s.currentSize + length ≤ cfg.maxSize) : s.rotates cfg length = true := by
  rw [rotates, decide_eq_true (Nat.not_le.1 h), decide_eq_true hpos]
  rfl

end Files

/-! ## A turn of the loop -/

section Turn

variable {cfg : SinkConfig} {env : SinkEnv} {s s' : HtmlFormatSink} {i : Nat}

/-- The names of a turn, with the readings at which they are computed. -/
def srcName (cfg : SinkConfig) (env : SinkEnv) (s : HtmlFormatSink) (i : Nat) : Bytes :=
  cfg.name.calcFilename (env.clock s.readings) i

def targetName (cfg : SinkConfig) (env : SinkEnv) (s : HtmlFormatSink) (i : Nat) : Bytes :=
  cfg.name.calcFilename (env.clock (s.readings + 1)) (i + 1)

theorem srcName_ne_targetName (cfg : SinkConfig) (env : SinkEnv) (s : HtmlFormatSink) (i : Nat) :
    srcName cfg env s i ≠ targetName cfg env s i :=
  fun h => Nat.succ_ne_self i (calcFilename_inj h).2.symm

/-- A turn whose rename succeeds: from the index `i` to the next. -/
inductive TurnStep (cfg : SinkConfig) (env : SinkEnv) (s : HtmlFormatSink) (i : Nat)
    (s' : HtmlFormatSink) : Prop
  | absent (hsrc : s.files (srcName cfg env s i) = none)
      (hs' : s' = { s with readings := s.readings + 1 })
  | moved (file : List Chunk) (hsrc : s.files (srcName cfg env s i) = some file)
      (hs' : s' = { s with
        files := Function.update (Function.update s.files (srcName cfg env s i) none)
          (targetName cfg env s i) (some file)
        readings := s.readings + 2, renameCalls := s.renameCalls + 1 })

theorem rotateTurn_cases (cfg : SinkConfig) (hren : ∀ k, env.renames k = true)
    (s : HtmlFormatSink) (i : Nat) :
    ∃ s', s.rotateTurn cfg env (i + 1) = .ok s' ∧ TurnStep cfg env s i s' := by
  have hne := srcName_ne_targetName cfg env s i
  cases hsrc : s.files (srcName cfg env s i) with
  | none =>
    refine ⟨_, ?_, .absent hsrc rfl⟩
    unfold srcName at hsrc
    simp only [rotateTurn, calcFilename, Nat.add_sub_cancel, hsrc, Option.isNone_none, if_true]
  | some file =>
    refine ⟨_, ?_, .moved file hsrc rfl⟩
    have hkeep : Function.update s.files (targetName cfg env s i) none (srcName cfg env s i) =
        some file := by
      rw [Function.update_of_ne hne, hsrc]
    have hfiles : Function.update (Function.update (Function.update s.files
        (targetName cfg env s i) none) (srcName cfg env s i) none) (targetName cfg env s i)
        (some file) = Function.update (Function.update s.files (srcName cfg env s i) none)
        (targetName cfg env s i) (some file) := by
      rw [Function.update_comm hne.symm, Function.update_idem]
    unfold srcName targetName at *
    simp only [rotateTurn, calcFilename, Nat.add_sub_cancel, hsrc, Option.isNone_some,
      Bool.false_eq_true, if_false, renameFile, hren, if_true, hkeep, hfiles]

theorem rotateTurns_ok (cfg : SinkConfig) (hren : ∀ k, env.renames k = true) (i : Nat)
    (s : HtmlFormatSink) :
    ∃ t, s.rotateTurns cfg env i = .ok t := by
  induction i generalizing s with
  | zero => exact ⟨s, rfl⟩
  | succ i ih =>
    obtain ⟨u, hu, -⟩ := rotateTurn_cases cfg hren s i
    obtain ⟨t, ht⟩ := ih u
    refine ⟨t, ?_⟩
    rw [rotateTurns, hu]
    exact ht

theorem exists_step (cfg : SinkConfig) (env : SinkEnv) (files : Bytes → Option Bytes)
    (s : HtmlFormatSink) (msg : LogMsg) :
    ∃ s', (htmlFormatSink cfg env files).step s msg = some s' := by
  unfold htmlFormatSink
  dsimp only
  cases s.sinkIt cfg env msg with
  | ok t => exact ⟨t, rfl⟩
  | error e => exact ⟨e.sink, rfl⟩

/-- The end of a rotation: the open file has the header in it, and nothing else. -/
def begun (s : HtmlFormatSink) : HtmlFormatSink :=
  { (s.reopen true).write (.text htmlHeader) with rotations := s.rotations + 1 }

theorem rotate_eq {t : HtmlFormatSink} (h : s.rotateTurns cfg env cfg.maxFiles = .ok t) :
    s.rotate cfg env = .ok t.begun := by
  rw [rotate, h]
  rfl

theorem begun_files_self (s : HtmlFormatSink) :
    s.begun.files s.filename = some [.text htmlHeader] := by
  have hwrite := write_files_self (s.reopen true) (.text htmlHeader)
  rw [reopen_opened] at hwrite
  exact hwrite

theorem begun_opened (s : HtmlFormatSink) : s.begun.opened = [.text htmlHeader] :=
  congrArg (Option.getD · []) s.begun_files_self

theorem begun_files_other {name : Bytes} (h : name ≠ s.filename) :
    s.begun.files name = s.files name :=
  (write_files_other (s := s.reopen true) _ h).trans (reopen_files_other h)

-- the literal has more characters than the default depth admits
set_option maxRecDepth 2000 in
theorem length_htmlHeader : htmlHeader.length = 268 := (length_bytes_ofList _).trans rfl

theorem length_htmlHeader_pos : 0 < htmlHeader.length := by
  rw [length_htmlHeader]
  decide

theorem begun_size (s : HtmlFormatSink) : s.begun.size = htmlHeader.length := by
  rw [size, begun_opened, fileSize_singleton, Chunk.bytes]

/-! ## The constructor -/

section Construct

variable {files : Bytes → Option Bytes}

theorem opening_counter (cfg : SinkConfig) (env : SinkEnv) (files : Bytes → Option Bytes) :
    (opening cfg env files).currentSize = (opening cfg env files).size := rfl

/-- The file is what was there under its name, and the header. -/
theorem opening_size (cfg : SinkConfig) (env : SinkEnv) (files : Bytes → Option Bytes) :
    (opening cfg env files).size = fileSize (((unopened files).files
      (cfg.name.calcFilename (env.clock 0) 0)).getD []) + htmlHeader.length := by
  have hwrite := size_write (((unopened files).calcFilename cfg env 0).2.openFile
    (cfg.name.calcFilename (env.clock 0) 0) false) (.text htmlHeader)
  have hsize : (opening cfg env files).size = _ := hwrite
  rw [hsize, size, openFile_opened, if_neg Bool.false_ne_true, Chunk.bytes]
  rfl

theorem opening_size_pos (cfg : SinkConfig) (env : SinkEnv) (files : Bytes → Option Bytes) :
    0 < (opening cfg env files).size := by
  rw [opening_size]
  exact Nat.add_pos_right _ length_htmlHeader_pos

/-- A sink that was made has rotated exactly if it was told to. -/
theorem construct_eq_ok (h : construct cfg env files = .ok s) :
    (cfg.rotateOnOpen = false ∧ s = opening cfg env files) ∨
      (cfg.rotateOnOpen = true ∧
        ∃ t, (opening cfg env files).rotateTurns cfg env cfg.maxFiles = .ok t ∧
          s = { t.begun with currentSize := 0 }) := by
  have hpos := opening_size_pos cfg env files
  rw [← opening_counter] at hpos
  unfold construct at h
  split at h
  · cases h
  · split at h
    · cases h
    · dsimp only at h
      rw [decide_eq_true hpos, Bool.and_true] at h
      cases hrotate : cfg.rotateOnOpen with
      | false =>
        rw [hrotate, if_neg Bool.false_ne_true] at h
        exact .inl ⟨rfl, (Except.ok.inj h).symm⟩
      | true =>
        rw [hrotate, if_pos rfl] at h
        refine .inr ⟨rfl, ?_⟩
        cases hturns : (opening cfg env files).rotateTurns cfg env cfg.maxFiles with
        | ok t =>
          rw [rotate_eq hturns] at h
          exact ⟨t, rfl, (Except.ok.inj h).symm⟩
        | error e =>
          rw [rotate, hturns] at h
          cases h

theorem construct_of_false (hmax : cfg.maxSize ≠ 0) (hfiles : cfg.maxFiles ≤ 200000)
    (hopen : cfg.rotateOnOpen = false) :
    construct cfg env files = .ok (opening cfg env files) := by
  unfold construct
  rw [if_neg hmax, if_neg (Nat.not_lt.2 hfiles), hopen]
  dsimp only
  rw [Bool.false_and, if_neg Bool.false_ne_true]

end Construct

/-- A log of 310 bytes: the header takes 268 of them. -/
def smallLog : SinkConfig := ⟨⟨bytes "log", bytes ".html"⟩, 310, 1, false⟩

/-- The second in which it is opened, and the one after it. -/
def smallLogTime (later : Bool) : LocalTime := ⟨2023, 9, 24, 16, 34, if later then 8 else 7⟩

/-- The second record makes `smallLog` rotate. -/
def twoRecords : List LogMsg := [⟨.info, bytes "first"⟩, ⟨.info, bytes "second"⟩]

theorem smallLog_constructed (env : SinkEnv) :
    construct smallLog env (fun _ => none) = .ok (opening smallLog env fun _ => none) :=
  construct_of_false (by decide) (by decide) rfl

theorem smallLog_currentSize (env : SinkEnv) :
    (opening smallLog env fun _ => none).currentSize = 268 := by
  rw [opening_counter, opening_size, length_htmlHeader]
  rfl

/-- What is in the directory after a rename. -/
theorem update_update_eq_some {files : Bytes → Option (List Chunk)} {src target name : Bytes}
    {file found : List Chunk} :
    Function.update (Function.update files src none) target (some file) name = some found ↔
      (name = target ∧ file = found) ∨
        (name ≠ target ∧ name ≠ src ∧ files name = some found) := by
  by_cases htarget : name = target
  · subst htarget
    simp
  · rw [Function.update_of_ne htarget]
    by_cases hsrc : name = src
    · subst hsrc
      simp [htarget]
    · rw [Function.update_of_ne hsrc]
      simp [htarget, hsrc]

end Turn

end HtmlFormatSink

end GameServer.Util
