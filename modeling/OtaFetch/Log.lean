import Mathlib.Data.List.Forall2
import OtaFetch.Terminal

/-!
# Log lines and the progress line

`log.c` writes log lines and in-place progress to stderr and copies the log
lines to the log file. A progress line is redrawn over the one before it: the
module remembers how much it printed and pads a shorter line with blanks.
-/
namespace OtaFetch.Log
open CPath Terminal

def logLevelNone : ℤ := 0
def logLevelError : ℤ := 1
def logLevelWarn : ℤ := 2
def logLevelInfo : ℤ := 3
def logLevelDebug : ℤ := 4

/-- The static variables of `log.c`, the bytes written to stderr, and those
written to the log file when one is open. -/
structure LogState where
  logFp : Option Bytes
  logLevel : ℤ
  stderrIsTty : ℤ
  progressActive : Bool
  progressWidth : ℕ
  stderr : Bytes
  deriving Repr, DecidableEq

def LogState.toStderr (s : LogState) (bytes : Bytes) : LogState :=
  { s with stderr := s.stderr ++ bytes }

/-- `isatty` is asked once. -/
def logStderrIsTty (isatty : Bool) (s : LogState) : Bool × LogState :=
  if s.stderrIsTty < 0 then
    (isatty, { s with stderrIsTty := if isatty then 1 else 0 })
  else (decide (s.stderrIsTty = 1), s)

/-- What `log_render_line` prints. -/
def lineOf (label message : CStr) : Bytes := text "[" ++ label ++ text "] " ++ message

def logRenderLine (s : LogState) (label message : CStr) : LogState :=
  s.toStderr (lineOf label message ++ [newline])

def logResetProgressState (s : LogState) : LogState :=
  { s with progressActive := false, progressWidth := 0 }

def logIsEnabled (logLevel level : ℤ) : Bool :=
  if level ≤ logLevelNone then false else decide (level ≤ logLevel)

def logLevelStr (level : ℤ) : CStr :=
  if level = logLevelError then text "ERROR"
  else if level = logLevelWarn then text "WARN"
  else if level = logLevelInfo then text "INFO"
  else if level = logLevelDebug then text "DEBUG"
  else text "LOG"

/-- The remembered width is what `fprintf` printed, the carriage return included
and the padding not. -/
def logRenderProgress (isatty : Bool) (message : Option CStr) (finalLine : Bool)
    (s : LogState) : LogState :=
  match message with
  | none => s
  | some message =>
    if logIsEnabled s.logLevel logLevelInfo = false then s
    else
      let (tty, s) := logStderrIsTty isatty s
      if tty = false then logRenderLine s (text "PROGRESS") message
      else
        let printed := carriageReturn :: (text "[PROGRESS] " ++ message)
        let padding :=
          if s.progressActive = true ∧ printed.length < s.progressWidth then
            s.progressWidth - printed.length
          else 0
        let s := s.toStderr (printed ++ List.replicate padding blank)
        if finalLine then logResetProgressState (s.toStderr [newline])
        else { s with progressActive := true, progressWidth := printed.length }

def logProgressUpdate (isatty : Bool) (message : Option CStr) (s : LogState) : LogState :=
  logRenderProgress isatty message false s

def logProgressFinish (isatty : Bool) (message : Option CStr) (s : LogState) : LogState :=
  logRenderProgress isatty message true s

def logProgressClear (isatty : Bool) (s : LogState) : LogState :=
  if s.progressActive = false then logResetProgressState s
  else
    let (tty, s) := logStderrIsTty isatty s
    if tty = false then logResetProgressState s
    else
      logResetProgressState (s.toStderr
        (carriageReturn :: List.replicate s.progressWidth blank ++ [carriageReturn]))

/-- `char message[1024]` and its terminating NUL. -/
def messageMax : ℕ := 1023

/-- `log_vwrite`. The text is what the format and its arguments stand for; it is
cut to the buffer. -/
def logVwrite (isatty : Bool) (level : ℤ) (fmt : Option CStr) (s : LogState) : LogState :=
  match fmt with
  | none => s
  | some formatted =>
    if logIsEnabled s.logLevel level = false then s
    else
      let s := if s.progressActive = true then logProgressClear isatty s else s
      let message := formatted.take messageMax
      let s := logRenderLine s (logLevelStr level) message
      match s.logFp with
      | none => s
      | some file =>
        { s with logFp := some (file ++ lineOf (logLevelStr level) message ++ [newline]) }

inductive LogCall where
  | write (level : ℤ) (fmt : Option CStr)
  | update (message : Option CStr)
  | finish (message : Option CStr)
  | clear
  deriving Repr, DecidableEq

def logStep (isatty : Bool) (s : LogState) : LogCall → LogState
  | .write level fmt => logVwrite isatty level fmt s
  | .update message => logProgressUpdate isatty message s
  | .finish message => logProgressFinish isatty message s
  | .clear => logProgressClear isatty s

def logRun (isatty : Bool) (s : LogState) (calls : List LogCall) : LogState :=
  calls.foldl (logStep isatty) s

/-- The state at the start of the program, with any level and any log file. -/
def LogState.initial (logLevel : ℤ) (logFp : Option Bytes) : LogState :=
  ⟨logFp, logLevel, -1, false, 0, []⟩

/-- What a terminal makes of the bytes written to stderr. -/
def LogState.screen (s : LogState) : Screen := Screen.empty.print s.stderr

/-- The message of the call is printable ASCII. -/
def LogCall.Plain : LogCall → Prop
  | .write _ fmt => ∀ m ∈ fmt, Terminal.Plain m
  | .update message => ∀ m ∈ message, Terminal.Plain m
  | .finish message => ∀ m ∈ message, Terminal.Plain m
  | .clear => True

instance : (c : LogCall) → Decidable c.Plain
  | .write _ fmt => inferInstanceAs (Decidable (∀ m ∈ fmt, Terminal.Plain m))
  | .update message => inferInstanceAs (Decidable (∀ m ∈ message, Terminal.Plain m))
  | .finish message => inferInstanceAs (Decidable (∀ m ∈ message, Terminal.Plain m))
  | .clear => inferInstanceAs (Decidable True)

lemma LogCall.plain_update {m : CStr} (h : Terminal.Plain m) :
    (LogCall.update (some m)).Plain := by
  rintro _ ⟨⟩
  exact h

lemma LogCall.plain_finish {m : CStr} (h : Terminal.Plain m) :
    (LogCall.finish (some m)).Plain := by
  rintro _ ⟨⟩
  exact h

/-- The line that a log call writes, when its level is enabled. -/
def logLine (logLevel : ℤ) : LogCall → Option CStr
  | .write level (some m) =>
    if logIsEnabled logLevel level then some (lineOf (logLevelStr level) (m.take messageMax))
    else none
  | _ => none

/-- The line that a call completes on the terminal. -/
def completedLine (logLevel : ℤ) : LogCall → Option CStr
  | .finish (some m) =>
    if logIsEnabled logLevel logLevelInfo then some (lineOf (text "PROGRESS") m) else none
  | c => logLine logLevel c

/-- What the last line shows after a call, given what it showed before: the last
update, until a line is completed or the progress is cleared. -/
def shownAfter (logLevel : ℤ) (shown : CStr) : LogCall → CStr
  | .update (some m) =>
    if logIsEnabled logLevel logLevelInfo then lineOf (text "PROGRESS") m else shown
  | .clear => []
  | c => if (completedLine logLevel c).isSome then [] else shown

@[simp] lemma screen_toStderr (s : LogState) (bytes : Bytes) :
    (s.toStderr bytes).screen = s.screen.print bytes := by
  rw [LogState.screen, LogState.toStderr, print_append]
  rfl

@[simp] lemma screen_reset (s : LogState) : (logResetProgressState s).screen = s.screen := rfl

/-- The terminal shows the completed lines and, on the last line, `shown`. The
remembered width counts its cells and one more. -/
structure Tidy (logLevel : ℤ) (s : LogState) (lines : List CStr) (shown : CStr) : Prop where
  level : s.logLevel = logLevel
  tty : s.stderrIsTty < 0 ∨ s.stderrIsTty = 1
  done : List.Forall₂ Shows s.screen.done lines
  line : Shows s.screen.line shown
  active : s.progressActive = true → s.progressWidth = shown.length + 1
  idle : s.progressActive = false → shown = [] ∧ s.screen.col = 0

lemma plain_line {label message : CStr} (hlabel : Terminal.Plain label)
    (hmessage : Terminal.Plain message) : Terminal.Plain (lineOf label message) := by
  have hopen : Terminal.Plain (text "[") := by decide
  have hclose : Terminal.Plain (text "] ") := by decide
  exact ((hopen.append hlabel).append hclose).append hmessage

lemma plain_levelStr (level : ℤ) : Terminal.Plain (logLevelStr level) := by
  unfold logLevelStr
  split_ifs <;> decide

lemma logStderrIsTty_true {s : LogState} (h : s.stderrIsTty < 0 ∨ s.stderrIsTty = 1) :
    logStderrIsTty true s = (true, { s with stderrIsTty := 1 }) := by
  cases h with
  | inl hunknown => rw [logStderrIsTty, if_pos hunknown, if_pos rfl]
  | inr hone => rw [logStderrIsTty, if_neg (by omega), decide_eq_true hone, ← hone]

/-- The blanks that are printed after a progress line. -/
def paddingOf (s : LogState) (line : CStr) : ℕ :=
  if s.progressActive = true ∧ line.length + 1 < s.progressWidth then
    s.progressWidth - (line.length + 1)
  else 0

/-- On a terminal a progress line is a carriage return, the line, and blanks. -/
lemma logRenderProgress_tty {s : LogState} (htty : s.stderrIsTty < 0 ∨ s.stderrIsTty = 1)
    (henabled : logIsEnabled s.logLevel logLevelInfo = true) (m : CStr) (finalLine : Bool) :
    logRenderProgress true (some m) finalLine s =
      let line := lineOf (text "PROGRESS") m
      let u := LogState.toStderr { s with stderrIsTty := 1 }
        (carriageReturn :: (line ++ List.replicate (paddingOf s line) blank))
      if finalLine then logResetProgressState (u.toStderr [newline])
      else { u with progressActive := true, progressWidth := line.length + 1 } := by
  have hdisabled : ¬ logIsEnabled s.logLevel logLevelInfo = false := by
    rw [henabled]
    decide
  rw [logRenderProgress, if_neg hdisabled, logStderrIsTty_true htty]
  rfl

lemma Tidy.padding {logLevel : ℤ} {s : LogState} {lines : List CStr} {shown : CStr}
    (h : Tidy logLevel s lines shown) (line : CStr) :
    shown.length ≤ line.length + paddingOf s line := by
  unfold paddingOf
  cases hactive : s.progressActive with
  | true =>
    have hwidth := h.active hactive
    simp only [true_and]
    split_ifs <;> omega
  | false =>
    rw [(h.idle hactive).1]
    exact Nat.zero_le _

/-- After a carriage return, a line with its padding hides what was shown. -/
lemma Tidy.redraw {logLevel : ℤ} {s : LogState} {lines : List CStr} {shown : CStr}
    (h : Tidy logLevel s lines shown) {line : CStr} (hline : Terminal.Plain line) {k : ℕ}
    (hk : shown.length ≤ line.length + k) :
    (s.screen.print (carriageReturn :: (line ++ List.replicate k blank))).done = s.screen.done ∧
      Shows (s.screen.print (carriageReturn :: (line ++ List.replicate k blank))).line line := by
  rw [print_cons, put_return]
  exact print_over (s := { s.screen with col := 0, inside := Nat.zero_le _ }) h.line rfl hline hk

lemma Tidy.update {logLevel : ℤ} {s : LogState} {lines : List CStr} {shown m : CStr}
    (h : Tidy logLevel s lines shown) (henabled : logIsEnabled logLevel logLevelInfo = true)
    (hm : Terminal.Plain m) :
    Tidy logLevel (logProgressUpdate true (some m) s) lines (lineOf (text "PROGRESS") m) := by
  have hline : Terminal.Plain (lineOf (text "PROGRESS") m) := plain_line (by decide) hm
  obtain ⟨hdone, hshows⟩ := h.redraw hline (h.padding _)
  rw [← screen_toStderr] at hdone hshows
  rw [logProgressUpdate, logRenderProgress_tty h.tty (h.level ▸ henabled)]
  constructor
  · exact h.level
  · exact .inr rfl
  · exact hdone.symm ▸ h.done
  · exact hshows
  · exact fun _ => rfl
  · exact fun hidle => Bool.noConfusion hidle

/-- A newline completes the line that the terminal shows. -/
lemma tidy_newline {logLevel : ℤ} {s : LogState} {lines : List CStr} {line : CStr}
    (hlevel : s.logLevel = logLevel) (htty : s.stderrIsTty < 0 ∨ s.stderrIsTty = 1)
    (hidle : s.progressActive = false) (hdone : List.Forall₂ Shows s.screen.done lines)
    (hline : Shows s.screen.line line) :
    Tidy logLevel (s.toStderr [newline]) (lines ++ [line]) [] := by
  have hscreen : (s.toStderr [newline]).screen =
      ⟨s.screen.done ++ [s.screen.line], [], 0, le_rfl⟩ := by
    rw [screen_toStderr, print_cons, put_newline, print_nil]
  constructor
  · exact hlevel
  · exact htty
  · rw [hscreen]
    exact List.rel_append hdone (.cons hline .nil)
  · rw [hscreen]
    exact shows_nil
  · intro hactive
    exact Bool.noConfusion (hidle.symm.trans hactive)
  · rw [hscreen]
    exact fun _ => ⟨rfl, rfl⟩

lemma Tidy.finish {logLevel : ℤ} {s : LogState} {lines : List CStr} {shown m : CStr}
    (h : Tidy logLevel s lines shown) (henabled : logIsEnabled logLevel logLevelInfo = true)
    (hm : Terminal.Plain m) :
    Tidy logLevel (logProgressFinish true (some m) s) (lines ++ [lineOf (text "PROGRESS") m])
      [] := by
  have hline : Terminal.Plain (lineOf (text "PROGRESS") m) := plain_line (by decide) hm
  obtain ⟨hdone, hshows⟩ := h.redraw hline (h.padding _)
  rw [← screen_toStderr] at hdone hshows
  rw [logProgressFinish, logRenderProgress_tty h.tty (h.level ▸ henabled)]
  exact tidy_newline (s := logResetProgressState _) h.level (.inr rfl) rfl
    (hdone.symm ▸ h.done) hshows

lemma logProgressClear_tty {s : LogState} (htty : s.stderrIsTty < 0 ∨ s.stderrIsTty = 1)
    (hactive : s.progressActive = true) :
    logProgressClear true s =
      logResetProgressState (LogState.toStderr { s with stderrIsTty := 1 }
        (carriageReturn :: List.replicate s.progressWidth blank ++ [carriageReturn])) := by
  have hbusy : ¬ s.progressActive = false := by
    rw [hactive]
    decide
  rw [logProgressClear, if_neg hbusy, logStderrIsTty_true htty]
  rfl

lemma Tidy.clear {logLevel : ℤ} {s : LogState} {lines : List CStr} {shown : CStr}
    (h : Tidy logLevel s lines shown) : Tidy logLevel (logProgressClear true s) lines [] := by
  cases hactive : s.progressActive with
  | false =>
    obtain ⟨hshown, hcol⟩ := h.idle hactive
    rw [logProgressClear, if_pos hactive]
    exact ⟨h.level, h.tty, h.done, hshown ▸ h.line, fun hreset => Bool.noConfusion hreset,
      fun _ => ⟨rfl, hcol⟩⟩
  | true =>
    have hwidth : shown.length ≤ ([] : CStr).length + s.progressWidth := by
      rw [h.active hactive]
      exact Nat.le_add_left_of_le (Nat.le_succ _)
    obtain ⟨hdone, hshows⟩ := h.redraw (show Terminal.Plain [] by decide) hwidth
    rw [List.nil_append] at hdone hshows
    rw [logProgressClear_tty h.tty hactive]
    set u := LogState.toStderr { s with stderrIsTty := 1 }
      (carriageReturn :: List.replicate s.progressWidth blank ++ [carriageReturn]) with hu
    have hscreen : u.screen =
        { s.screen.print (carriageReturn :: List.replicate s.progressWidth blank) with
          col := 0, inside := Nat.zero_le _ } := by
      rw [hu, screen_toStderr, print_append, print_cons _ _ [], put_return, print_nil]
      rfl
    constructor
    · exact h.level
    · exact .inr rfl
    · rw [screen_reset, hscreen]
      exact hdone.symm ▸ h.done
    · rw [screen_reset, hscreen]
      exact hshows
    · exact fun hreset => Bool.noConfusion hreset
    · rw [screen_reset, hscreen]
      exact fun _ => ⟨rfl, rfl⟩

/-- A log line starts on a blank line: progress is cleared first. -/
lemma Tidy.writable {logLevel : ℤ} {s : LogState} {lines : List CStr} {shown : CStr}
    (h : Tidy logLevel s lines shown) :
    let u := if s.progressActive = true then logProgressClear true s else s
    Tidy logLevel u lines [] ∧ u.progressActive = false := by
  cases hactive : s.progressActive with
  | true =>
    rw [if_pos rfl]
    refine ⟨h.clear, ?_⟩
    rw [logProgressClear_tty h.tty hactive]
    rfl
  | false =>
    rw [if_neg (by decide)]
    exact ⟨(h.idle hactive).1 ▸ h, hactive⟩

lemma Tidy.logRenderLine {logLevel : ℤ} {s : LogState} {lines : List CStr} {label m : CStr}
    (h : Tidy logLevel s lines []) (hidle : s.progressActive = false)
    (hlabel : Terminal.Plain label) (hm : Terminal.Plain m) :
    Tidy logLevel (logRenderLine s label m) (lines ++ [lineOf label m]) [] := by
  obtain ⟨hdone, hshows⟩ := print_over h.line (h.idle hidle).2 (plain_line hlabel hm)
    (k := 0) (Nat.zero_le _)
  rw [List.replicate_zero, List.append_nil, ← screen_toStderr] at hdone hshows
  have hsplit : Log.logRenderLine s label m = (s.toStderr (lineOf label m)).toStderr [newline] := by
    rw [Log.logRenderLine, LogState.toStderr, LogState.toStderr, LogState.toStderr,
      List.append_assoc]
  rw [hsplit]
  exact tidy_newline h.level h.tty hidle (hdone.symm ▸ h.done) hshows

lemma logVwrite_enabled {isatty : Bool} {level : ℤ} {m : CStr} {s : LogState}
    (henabled : logIsEnabled s.logLevel level = true) :
    logVwrite isatty level (some m) s =
      let u := if s.progressActive = true then logProgressClear isatty s else s
      let message := m.take messageMax
      let v := logRenderLine u (logLevelStr level) message
      { v with logFp := v.logFp.map (· ++ (lineOf (logLevelStr level) message ++ [newline])) } := by
  have hdisabled : ¬ logIsEnabled s.logLevel level = false := by
    rw [henabled]
    decide
  rw [logVwrite, if_neg hdisabled]
  cases hfile : (logRenderLine (if s.progressActive = true then logProgressClear isatty s else s)
      (logLevelStr level) (m.take messageMax)).logFp with
  | none =>
    simp only [hfile]
    rw [Option.map_none, ← hfile]
  | some file =>
    simp only [hfile]
    rw [Option.map_some, List.append_assoc]

lemma Tidy.write {logLevel level : ℤ} {s : LogState} {lines : List CStr} {shown m : CStr}
    (h : Tidy logLevel s lines shown) (henabled : logIsEnabled logLevel level = true)
    (hm : Terminal.Plain m) :
    Tidy logLevel (logVwrite true level (some m) s)
      (lines ++ [lineOf (logLevelStr level) (m.take messageMax)]) [] := by
  obtain ⟨hblank, hidle⟩ := h.writable
  have hwritten := hblank.logRenderLine hidle (plain_levelStr level) (hm.take messageMax)
  rw [logVwrite_enabled (h.level ▸ henabled)]
  exact ⟨hwritten.level, hwritten.tty, hwritten.done, hwritten.line, hwritten.active,
    hwritten.idle⟩

lemma logVwrite_disabled {isatty : Bool} {level : ℤ} {fmt : Option CStr} {s : LogState}
    (hdisabled : logIsEnabled s.logLevel level = false) : logVwrite isatty level fmt s = s := by
  cases fmt with
  | none => rfl
  | some m => rw [logVwrite, if_pos hdisabled]

lemma logRenderProgress_disabled {isatty finalLine : Bool} {message : Option CStr} {s : LogState}
    (hdisabled : logIsEnabled s.logLevel logLevelInfo = false) :
    logRenderProgress isatty message finalLine s = s := by
  cases message with
  | none => rfl
  | some m => rw [logRenderProgress, if_pos hdisabled]

/-- A call that does nothing. -/
lemma Tidy.skip {logLevel : ℤ} {s : LogState} {lines : List CStr} {shown : CStr}
    (h : Tidy logLevel s lines shown) {c : LogCall} (hstep : logStep true s c = s)
    (hline : completedLine logLevel c = none) (hshown : shownAfter logLevel shown c = shown) :
    Tidy logLevel (logStep true s c) (lines ++ (completedLine logLevel c).toList)
      (shownAfter logLevel shown c) := by
  rw [hstep, hline, hshown, Option.toList_none, List.append_nil]
  exact h

/-- One call keeps the terminal tidy. -/
lemma Tidy.step {logLevel : ℤ} {s : LogState} {lines : List CStr} {shown : CStr}
    (h : Tidy logLevel s lines shown) {c : LogCall} (hc : c.Plain) :
    Tidy logLevel (logStep true s c) (lines ++ (completedLine logLevel c).toList)
      (shownAfter logLevel shown c) := by
  have hlevel := h.level
  cases c with
  | write level fmt =>
    cases fmt with
    | none => exact h.skip rfl rfl rfl
    | some m =>
      cases henabled : logIsEnabled logLevel level with
      | true =>
        have hwritten := h.write henabled (hc m rfl)
        simpa [logStep, completedLine, logLine, shownAfter, henabled] using hwritten
      | false =>
        have hstep : logStep true s (.write level (some m)) = s := by
          rw [logStep, logVwrite_disabled (hlevel ▸ henabled)]
        exact h.skip hstep (by simp [completedLine, logLine, henabled])
          (by simp [shownAfter, completedLine, logLine, henabled])
  | update message =>
    cases message with
    | none => exact h.skip rfl rfl rfl
    | some m =>
      cases henabled : logIsEnabled logLevel logLevelInfo with
      | true =>
        have hupdated := h.update henabled (hc m rfl)
        simpa [logStep, completedLine, logLine, shownAfter, henabled] using hupdated
      | false =>
        have hstep : logStep true s (.update (some m)) = s := by
          rw [logStep, logProgressUpdate, logRenderProgress_disabled (hlevel ▸ henabled)]
        exact h.skip hstep rfl (by simp [shownAfter, henabled])
  | finish message =>
    cases message with
    | none => exact h.skip rfl rfl rfl
    | some m =>
      cases henabled : logIsEnabled logLevel logLevelInfo with
      | true =>
        have hfinished := h.finish henabled (hc m rfl)
        simpa [logStep, completedLine, shownAfter, henabled] using hfinished
      | false =>
        have hstep : logStep true s (.finish (some m)) = s := by
          rw [logStep, logProgressFinish, logRenderProgress_disabled (hlevel ▸ henabled)]
        exact h.skip hstep (by simp [completedLine, henabled])
          (by simp [shownAfter, completedLine, henabled])
  | clear => simpa [logStep, completedLine, logLine, shownAfter] using h.clear

lemma Tidy.run {logLevel : ℤ} {s : LogState} {lines : List CStr} {shown : CStr}
    (h : Tidy logLevel s lines shown) {calls : List LogCall} (hcalls : ∀ c ∈ calls, c.Plain) :
    Tidy logLevel (logRun true s calls) (lines ++ calls.filterMap (completedLine logLevel))
      (calls.foldl (shownAfter logLevel) shown) := by
  induction calls generalizing s lines shown with
  | nil => simpa [logRun] using h
  | cons c calls ih =>
    obtain ⟨hc, hrest⟩ := List.forall_mem_cons.mp hcalls
    have hrun := ih (h.step hc) hrest
    have hlines : lines ++ (c :: calls).filterMap (completedLine logLevel) =
        lines ++ (completedLine logLevel c).toList ++ calls.filterMap (completedLine logLevel) := by
      rw [List.filterMap_cons, List.append_assoc]
      cases completedLine logLevel c <;> rfl
    rw [hlines]
    exact hrun

lemma tidy_initial (logLevel : ℤ) (logFp : Option Bytes) :
    Tidy logLevel (LogState.initial logLevel logFp) [] [] :=
  ⟨rfl, .inl (Int.negSucc_lt_zero 0), .nil, shows_nil, fun hactive => Bool.noConfusion hactive,
    fun _ => ⟨rfl, rfl⟩⟩

/-- Progress neither writes to the log file nor changes the level. -/
lemma logStderrIsTty_frame (isatty : Bool) (s : LogState) :
    (logStderrIsTty isatty s).2.logFp = s.logFp ∧
      (logStderrIsTty isatty s).2.logLevel = s.logLevel := by
  unfold logStderrIsTty
  split <;> exact ⟨rfl, rfl⟩

lemma logRenderProgress_frame (isatty finalLine : Bool) (message : Option CStr) (s : LogState) :
    (logRenderProgress isatty message finalLine s).logFp = s.logFp ∧
      (logRenderProgress isatty message finalLine s).logLevel = s.logLevel := by
  cases message with
  | none => exact ⟨rfl, rfl⟩
  | some m =>
    have htty := logStderrIsTty_frame isatty s
    simp only [logRenderProgress]
    split_ifs <;> first | exact htty | exact ⟨rfl, rfl⟩

lemma logProgressClear_frame (isatty : Bool) (s : LogState) :
    (logProgressClear isatty s).logFp = s.logFp ∧
      (logProgressClear isatty s).logLevel = s.logLevel := by
  have htty := logStderrIsTty_frame isatty s
  simp only [logProgressClear]
  split_ifs <;> first | exact htty | exact ⟨rfl, rfl⟩

/-- What the enabled log calls add to the log file. -/
def fileLines (logLevel : ℤ) (calls : List LogCall) : Bytes :=
  (calls.filterMap (logLine logLevel)).flatMap (· ++ [newline])

lemma fileLines_cons (logLevel : ℤ) (c : LogCall) (calls : List LogCall) :
    fileLines logLevel (c :: calls) =
      ((logLine logLevel c).map (· ++ [newline])).getD [] ++ fileLines logLevel calls := by
  rw [fileLines, fileLines, List.filterMap_cons]
  cases logLine logLevel c <;> simp

lemma logStep_frame (isatty : Bool) (s : LogState) (c : LogCall) :
    (logStep isatty s c).logFp =
        s.logFp.map (· ++ ((logLine s.logLevel c).map (· ++ [newline])).getD []) ∧
      (logStep isatty s c).logLevel = s.logLevel := by
  have hsame : s.logFp.map (· ++ []) = s.logFp := by simp
  cases c with
  | write level fmt =>
    cases henabled : logIsEnabled s.logLevel level with
    | false =>
      rw [logStep, logVwrite_disabled henabled]
      cases fmt <;> simp [logLine, henabled]
    | true =>
      cases fmt with
      | none => simp [logStep, logVwrite, logLine]
      | some m =>
        have hclear := logProgressClear_frame isatty s
        rw [logStep, logVwrite_enabled henabled]
        simp only [logRenderLine, LogState.toStderr, logLine, henabled, if_true]
        split_ifs
        · exact ⟨congrArg _ hclear.1, hclear.2⟩
        · exact ⟨rfl, rfl⟩
  | update message =>
    have hframe := logRenderProgress_frame isatty false message s
    exact ⟨hframe.1.trans hsame.symm, hframe.2⟩
  | finish message =>
    have hframe := logRenderProgress_frame isatty true message s
    exact ⟨hframe.1.trans hsame.symm, hframe.2⟩
  | clear =>
    have hframe := logProgressClear_frame isatty s
    exact ⟨hframe.1.trans hsame.symm, hframe.2⟩

lemma logRun_file (isatty : Bool) (s : LogState) (calls : List LogCall) :
    (logRun isatty s calls).logFp = s.logFp.map (· ++ fileLines s.logLevel calls) := by
  induction calls generalizing s with
  | nil => simp [logRun, fileLines]
  | cons c calls ih =>
    obtain ⟨hfile, hlevel⟩ := logStep_frame isatty s c
    have hrun : logRun isatty s (c :: calls) = logRun isatty (logStep isatty s c) calls := rfl
    rw [hrun, ih, hfile, hlevel, fileLines_cons, Option.map_map]
    congr 1
    funext file
    exact List.append_assoc _ _ _

/-- In-place progress leaves no debris: whatever the calls, the completed lines
are the enabled log lines and finish lines in call order, the last line shows the
last update or nothing, and the log file has received the log lines. A log
message longer than its buffer is cut. -/
theorem progress_leaves_no_debris (logLevel : ℤ) (logFp : Option Bytes) (calls : List LogCall)
    (hcalls : ∀ c ∈ calls, c.Plain) :
    let s := logRun true (LogState.initial logLevel logFp) calls
    List.Forall₂ Shows s.screen.done (calls.filterMap (completedLine logLevel)) ∧
      Shows s.screen.line (calls.foldl (shownAfter logLevel) []) ∧
      s.logFp = logFp.map (· ++ fileLines logLevel calls) := by
  have htidy := (tidy_initial logLevel logFp).run hcalls
  exact ⟨htidy.done, htidy.line, logRun_file true _ calls⟩

/-- Longer and shorter progress with log lines in between, the last one disabled. -/
def sampleCalls : List LogCall :=
  [.update (some (text "42%  42.0 MiB / 100.0 MiB")), .update (some (text "43%")),
    .write logLevelWarn (some (text "retrying")), .update (some (text "44%  44.0 MiB")),
    .finish (some (text "done")), .update (some (text "5%")), .clear,
    .write logLevelDebug (some (text "hidden")), .update (some (text "6%"))]

theorem progress_leaves_no_debris_sample :
    (∀ c ∈ sampleCalls, c.Plain) ∧
      (let s := logRun true (LogState.initial logLevelInfo (some [])) sampleCalls
      List.Forall₂ Shows s.screen.done
          (sampleCalls.filterMap (completedLine logLevelInfo)) ∧
        Shows s.screen.line (sampleCalls.foldl (shownAfter logLevelInfo) []) ∧
        s.logFp = some ([] ++ fileLines logLevelInfo sampleCalls)) ∧
      sampleCalls.filterMap (completedLine logLevelInfo) =
        [text "[WARN] retrying", text "[PROGRESS] done"] ∧
      sampleCalls.foldl (shownAfter logLevelInfo) [] = text "[PROGRESS] 6%" ∧
      fileLines logLevelInfo sampleCalls = text "[WARN] retrying\n" :=
  have hplain : ∀ c ∈ sampleCalls, c.Plain := by decide
  ⟨hplain, progress_leaves_no_debris logLevelInfo (some []) sampleCalls hplain, by decide,
    by decide, by decide⟩

/-- One byte more than the buffer takes. -/
def longMessage : CStr := List.replicate 1024 97

/-- Five letters of two bytes each. -/
def accented : CStr := (List.replicate 5 [0xC3, 0xA9]).flatten

/-- A message of 1024 bytes does not fit into the buffer with its NUL: its last
byte is neither on the terminal nor in the log file. And the padding counts bytes:
five letters of two bytes each over ten letters of one leave half of these visible. -/
theorem long_or_accented_message_is_garbled :
    let s := logRun true (LogState.initial logLevelInfo (some []))
      [.write logLevelInfo (some longMessage)]
    let u := logRun true (LogState.initial logLevelInfo none)
      [.update (some (text "aaaaaaaaaa")), .update (some accented)]
    ((∀ b ∈ longMessage, 32 ≤ b ∧ b ≠ 127) ∧ logIsEnabled logLevelInfo logLevelInfo = true ∧
      ¬ List.Forall₂ Shows s.screen.done [lineOf (text "INFO") longMessage] ∧
      s.logFp ≠ some (lineOf (text "INFO") longMessage ++ [newline])) ∧
    ((∀ b ∈ accented, 32 ≤ b ∧ b ≠ 127) ∧
      u.screen.line = cells (text "[PROGRESS] ") ++ List.replicate 5 [0xC3, 0xA9] ++
        cells (text "aaaaa") ∧
      ¬ ∃ n, u.screen.line.flatten =
        lineOf (text "PROGRESS") accented ++ List.replicate n blank) := by
  intro s u
  have hplain : Terminal.Plain longMessage := by decide +kernel
  have hlong : ¬ List.Forall₂ Shows s.screen.done [lineOf (text "INFO") longMessage] := by
    intro hdone
    have henabled : logIsEnabled logLevelInfo logLevelInfo = true := rfl
    have htidy := (tidy_initial logLevelInfo (some [])).write henabled hplain
    obtain ⟨line, rest, hshort, -, hscreen⟩ := List.forall₂_cons_right_iff.mp htidy.done
    obtain ⟨line', rest', hwhole, -, hscreen'⟩ := List.forall₂_cons_right_iff.mp hdone
    obtain ⟨rfl, -⟩ := List.cons.inj (hscreen.symm.trans hscreen')
    obtain ⟨n, hn⟩ := hshort.trim hwhole (by decide +kernel)
    have hrest := congrArg (List.drop 1030) hn
    rw [List.drop_left' (by decide +kernel)] at hrest
    have hlast : (97 : UInt8) ∈ List.replicate n blank := by
      rw [← hrest]
      decide +kernel
    exact absurd (List.eq_of_mem_replicate hlast) (by decide)
  have hline : u.screen.line = cells (text "[PROGRESS] ") ++ List.replicate 5 [0xC3, 0xA9] ++
      cells (text "aaaaa") := by decide +kernel
  refine ⟨⟨by decide +kernel, rfl, hlong, by decide +kernel⟩, by decide +kernel, hline, ?_⟩
  rintro ⟨n, hn⟩
  rw [hline] at hn
  have hrest : text "aaaaa" = List.replicate n blank := congrArg (List.drop 21) hn
  have hlast : (97 : UInt8) ∈ List.replicate n blank := by
    rw [← hrest]
    decide
  exact absurd (List.eq_of_mem_replicate hlast) (by decide)

end OtaFetch.Log
