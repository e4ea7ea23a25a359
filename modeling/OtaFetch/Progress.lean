import OtaFetch.Log
import OtaFetch.LogFormat
import OtaFetch.Throttle

/-!
# Progress of a download

libcurl calls `download_progress_callback` as often as it likes. The callback
renders a line only at a new milestone or, on a terminal, when enough time has
passed since the last one. What it renders over a whole download is therefore the
destuttered list of the eligible calls, and the bounds are read off that list.
-/
namespace OtaFetch.Progress
open CPath (CStr text)
open Log LogFormat Throttle

def percentIntervalMs : ℤ := 200
def forceIntervalMs : ℤ := 500
def minPercentMilestone : ℤ := 10
def nonTtyByteInterval : ℕ := 5 * 1024 * 1024

def logProgressPercentMilestone (percent : ℤ) : ℤ :=
  if percent < minPercentMilestone then -1
  else if percent ≥ 100 then 100
  else percent / 10 * 10

def logProgressByteMilestone (transferred intervalBytes : ℕ) : ℕ :=
  if intervalBytes = 0 then 0 else transferred / intervalBytes

def logProgressShouldEmit (nowMs lastEmitMs previousPercent currentPercent : ℤ)
    (completed : Bool) : Bool :=
  if completed then true
  else if lastEmitMs < 0 then true
  else
    let elapsedMs := nowMs - lastEmitMs
    if elapsedMs ≥ forceIntervalMs then true
    else if currentPercent ≥ 0 ∧ currentPercent ≠ previousPercent ∧
        elapsedMs ≥ percentIntervalMs then true
    else false

structure DownloadProgress where
  startedMs : ℤ
  lastEmitMs : ℤ
  lastPercent : ℤ
  lastNonTtyPercentMilestone : ℤ
  lastNonTtyByteMilestone : ℕ
  transferred : ℕ
  total : ℕ
  deriving Repr, DecidableEq

/-- `clockMs` is what `monotonic_ms` returns. -/
def downloadProgressInit (clockMs : ℤ) : DownloadProgress := ⟨clockMs, -1, -1, -1, 0, 0, 0⟩

def downloadProgressPercent (transferred total : ℕ) : ℤ :=
  if total = 0 then -1
  else
    let percent : ℕ := transferred * 100 % 2 ^ 64 / total
    if percent > 100 then 100 else percent

def downloadProgressSpeed (clockMs : ℤ) (p : DownloadProgress) : ℚ :=
  if p.transferred = 0 ∨ p.startedMs ≤ 0 then 0
  else
    let elapsedMs := clockMs - p.startedMs
    if elapsedMs ≤ 0 then 0
    else double (double (double p.transferred * 1000) / double elapsedMs)

/-- The call to `log.c` that renders the line. -/
def downloadProgressRender (logLevel clockMs : ℤ) (p : DownloadProgress) (finalLine : Bool) :
    Option LogCall :=
  if logIsEnabled logLevel logLevelInfo = false ∨ p.transferred = 0 then none
  else
    let total := if finalLine = true ∧ p.total = 0 then p.transferred else p.total
    match logFormatProgressLine 128 p.transferred total (downloadProgressSpeed clockMs p) with
    | none => none
    | some line => some (if finalLine then .finish (some line) else .update (some line))

/-- One call of the callback: libcurl's counters, the clock as the callback reads
it on a terminal, and the clock as the rendering reads it. -/
structure Tick where
  dltotal : ℤ
  dlnow : ℤ
  nowMs : ℤ
  renderMs : ℤ
  deriving Repr, DecidableEq

def Tick.total (t : Tick) : ℕ := if t.dltotal > 0 then t.dltotal.toNat else 0

def Tick.transferred (t : Tick) : ℕ := if t.dlnow > 0 then t.dlnow.toNat else 0

def downloadProgressCallback (isatty : Bool) (logLevel : ℤ) (p : DownloadProgress) (t : Tick) :
    DownloadProgress × Option LogCall :=
  let p := { p with total := t.total, transferred := t.transferred }
  if logIsEnabled logLevel logLevelInfo = false ∨ p.transferred = 0 then (p, none)
  else if p.total > 0 ∧ p.transferred ≥ p.total then (p, none)
  else if isatty = false then
    if p.total > 0 then
      let milestone := logProgressPercentMilestone (downloadProgressPercent p.transferred p.total)
      if milestone < 0 ∨ milestone = p.lastNonTtyPercentMilestone then (p, none)
      else
        let p := { p with lastNonTtyPercentMilestone := milestone }
        (p, downloadProgressRender logLevel t.renderMs p false)
    else
      let milestone := logProgressByteMilestone p.transferred nonTtyByteInterval
      if milestone = 0 ∨ milestone = p.lastNonTtyByteMilestone then (p, none)
      else
        let p := { p with lastNonTtyByteMilestone := milestone }
        (p, downloadProgressRender logLevel t.renderMs p false)
  else
    let percent := downloadProgressPercent p.transferred p.total
    if logProgressShouldEmit t.nowMs p.lastEmitMs p.lastPercent percent false = false then
      (p, none)
    else
      let p := { p with lastEmitMs := t.nowMs, lastPercent := percent }
      (p, downloadProgressRender logLevel t.renderMs p false)

/-- The calls at which a line is rendered, from `download_progress_init` on. -/
def rendered (isatty : Bool) (logLevel startedMs : ℤ) (ticks : List Tick) : List Tick :=
  (emitted (downloadProgressCallback isatty logLevel) (downloadProgressInit startedMs)
    ticks).map Prod.fst

/-- A rendered line always reaches `log.c`: its text fits into the buffer and is
printable ASCII. -/
lemma downloadProgressRender_line {logLevel : ℤ}
    (hinfo : logIsEnabled logLevel logLevelInfo = true) (clockMs : ℤ) {p : DownloadProgress}
    (hp : p.transferred ≠ 0) (finalLine : Bool) :
    ∃ line, Terminal.Plain line ∧ downloadProgressRender logLevel clockMs p finalLine =
      some (if finalLine then .finish (some line) else .update (some line)) := by
  have hon : ¬ (logIsEnabled logLevel logLevelInfo = false ∨ p.transferred = 0) := by
    simp [hinfo, hp]
  obtain ⟨line, hline, hfits⟩ := logFormatProgressLine_fits p.transferred
    (if finalLine = true ∧ p.total = 0 then p.transferred else p.total)
    (downloadProgressSpeed clockMs p)
  refine ⟨line, hfits.plain, ?_⟩
  rw [downloadProgressRender, if_neg hon]
  simp only [hline]

/-- Something has arrived and something is missing. -/
def Tick.Moving (t : Tick) : Prop := t.transferred ≠ 0 ∧ ¬ (t.total > 0 ∧ t.transferred ≥ t.total)

instance (t : Tick) : Decidable t.Moving := inferInstanceAs (Decidable (_ ∧ _))

def Tick.percent (t : Tick) : ℤ := downloadProgressPercent t.transferred t.total

def Tick.percentMilestone (t : Tick) : ℤ := logProgressPercentMilestone t.percent

def Tick.byteMilestone (t : Tick) : ℕ := logProgressByteMilestone t.transferred nonTtyByteInterval

/-- The state with the counters of a call. -/
def DownloadProgress.seen (p : DownloadProgress) (t : Tick) : DownloadProgress :=
  { p with total := t.total, transferred := t.transferred }

lemma callback_still {isatty : Bool} {logLevel : ℤ} {p : DownloadProgress} {t : Tick}
    (ht : ¬ t.Moving) : downloadProgressCallback isatty logLevel p t = (p.seen t, none) := by
  unfold downloadProgressCallback
  dsimp only
  by_cases hoff : logIsEnabled logLevel logLevelInfo = false ∨ t.transferred = 0
  · exact if_pos hoff
  · have hdone : t.total > 0 ∧ t.transferred ≥ t.total := by
      by_contra hmissing
      exact ht ⟨fun hzero => hoff (.inr hzero), hmissing⟩
    rw [if_neg hoff, if_pos hdone]
    rfl

lemma enabled_of_moving {logLevel : ℤ} (hinfo : logIsEnabled logLevel logLevelInfo = true)
    {t : Tick} (ht : t.Moving) :
    ¬ (logIsEnabled logLevel logLevelInfo = false ∨ t.transferred = 0) := by
  rw [hinfo]
  exact fun hoff => hoff.elim (by decide) ht.1

lemma callback_percent {logLevel : ℤ} (hinfo : logIsEnabled logLevel logLevelInfo = true)
    {p : DownloadProgress} {t : Tick} (ht : t.Moving) (htotal : t.total > 0) :
    downloadProgressCallback false logLevel p t =
      if t.percentMilestone < 0 ∨ t.percentMilestone = p.lastNonTtyPercentMilestone then
        (p.seen t, none)
      else
        let q := { p.seen t with lastNonTtyPercentMilestone := t.percentMilestone }
        (q, downloadProgressRender logLevel t.renderMs q false) := by
  unfold downloadProgressCallback
  dsimp only
  rw [if_neg (enabled_of_moving hinfo ht), if_neg ht.2, if_pos rfl, if_pos htotal]
  rfl

lemma callback_bytes {logLevel : ℤ} (hinfo : logIsEnabled logLevel logLevelInfo = true)
    {p : DownloadProgress} {t : Tick} (ht : t.Moving) (htotal : t.total = 0) :
    downloadProgressCallback false logLevel p t =
      if t.byteMilestone = 0 ∨ t.byteMilestone = p.lastNonTtyByteMilestone then (p.seen t, none)
      else
        let q := { p.seen t with lastNonTtyByteMilestone := t.byteMilestone }
        (q, downloadProgressRender logLevel t.renderMs q false) := by
  unfold downloadProgressCallback
  dsimp only
  rw [if_neg (enabled_of_moving hinfo ht), if_neg ht.2, if_pos rfl, if_neg (by omega)]
  rfl

lemma callback_tty {logLevel : ℤ} (hinfo : logIsEnabled logLevel logLevelInfo = true)
    {p : DownloadProgress} {t : Tick} (ht : t.Moving) :
    downloadProgressCallback true logLevel p t =
      if logProgressShouldEmit t.nowMs p.lastEmitMs p.lastPercent t.percent false = false then
        (p.seen t, none)
      else
        let q := { p.seen t with lastEmitMs := t.nowMs, lastPercent := t.percent }
        (q, downloadProgressRender logLevel t.renderMs q false) := by
  unfold downloadProgressCallback
  dsimp only
  rw [if_neg (enabled_of_moving hinfo ht), if_neg ht.2, if_neg (by decide)]
  rfl

/-- A mode of the callback throttles its calls when its guard is closed exactly at
the calls that are not due. -/
lemma throttles_of_guard {isatty : Bool} {logLevel : ℤ}
    (hinfo : logIsEnabled logLevel logLevelInfo = true) {ok due : Tick → Prop}
    {apart : Tick → Tick → Prop} {remembers : DownloadProgress → Option Tick → Prop}
    (mark : DownloadProgress → Tick → DownloadProgress) (closed : DownloadProgress → Tick → Prop)
    [∀ p t, Decidable (closed p t)]
    (hstep : ∀ p t, ok t → t.Moving → downloadProgressCallback isatty logLevel p t =
      if closed p t then (p.seen t, none)
      else (mark (p.seen t) t,
        downloadProgressRender logLevel t.renderMs (mark (p.seen t) t) false))
    (hclosed : ∀ p last t, remembers p last → ok t →
      (closed p t ↔ ¬ (due t ∧ ∀ a ∈ last, apart a t)))
    (hseen : ∀ p last t, remembers p last → remembers (p.seen t) last)
    (hmark : ∀ p t, ok t → remembers (mark p t) (some t))
    (htransferred : ∀ p t, (mark p t).transferred = p.transferred) :
    Throttles (downloadProgressCallback isatty logLevel) ok (fun t => t.Moving ∧ due t) apart
      remembers where
  emit := by
    intro p last t hlast ht helig hapart
    have hopen : ¬ closed p t := fun h => (hclosed p last t hlast ht).mp h ⟨helig.2, hapart⟩
    rw [hstep p t ht helig.1, if_neg hopen]
    have harrived : (mark (p.seen t) t).transferred ≠ 0 := by
      rw [htransferred]
      exact helig.1.1
    obtain ⟨line, -, hrender⟩ := downloadProgressRender_line hinfo t.renderMs harrived false
    rw [hrender]
    exact ⟨rfl, hmark _ t ht⟩
  hold := by
    intro p last t hlast ht hnot
    by_cases hmoving : t.Moving
    · have hshut : closed p t :=
        (hclosed p last t hlast ht).mpr (fun h => hnot ⟨⟨hmoving, h.1⟩, h.2⟩)
      rw [hstep p t ht hmoving, if_pos hshut]
      exact ⟨rfl, hseen p last t hlast⟩
    · rw [callback_still hmoving]
      exact ⟨rfl, hseen p last t hlast⟩

/-- A mode that stores the key of its last line, and a key that none has before. -/
lemma throttles_of_key {logLevel : ℤ} {κ : Type} [DecidableEq κ]
    (hinfo : logIsEnabled logLevel logLevelInfo = true) {ok due : Tick → Prop} [DecidablePred due]
    (key : Tick → κ) (before : κ) (hbefore : ∀ t, due t → key t ≠ before)
    (stored : DownloadProgress → κ) (mark : DownloadProgress → Tick → DownloadProgress)
    (hstep : ∀ p t, ok t → t.Moving → downloadProgressCallback false logLevel p t =
      if ¬ due t ∨ key t = stored p then (p.seen t, none)
      else (mark (p.seen t) t,
        downloadProgressRender logLevel t.renderMs (mark (p.seen t) t) false))
    (hseen : ∀ p t, stored (p.seen t) = stored p) (hmark : ∀ p t, stored (mark p t) = key t)
    (htransferred : ∀ p t, (mark p t).transferred = p.transferred) :
    Throttles (downloadProgressCallback false logLevel) ok (fun t => t.Moving ∧ due t)
      (fun a b => key a ≠ key b) (fun p last => stored p = (last.map key).getD before) := by
  refine throttles_of_guard hinfo mark (fun p t => ¬ due t ∨ key t = stored p) hstep ?_
    (fun p last t hlast => (hseen p t).trans hlast) (fun p t _ => hmark p t) htransferred
  intro p last t hlast _
  rw [hlast]
  cases last with
  | none =>
    have hnew := hbefore t
    simp only [Option.map_none, Option.getD_none, Option.mem_def, reduceCtorEq,
      IsEmpty.forall_iff, implies_true, and_true]
    exact or_iff_left_of_imp (fun hsame hdue => hnew hdue hsame)
  | some a =>
    simp only [Option.map_some, Option.getD_some, Option.mem_def, Option.some.injEq,
      forall_eq', not_and_or, not_not, eq_comm]

/-- Lines for a log: one for each new tenth of the total. -/
lemma percent_throttles {logLevel : ℤ} (hinfo : logIsEnabled logLevel logLevelInfo = true) :
    Throttles (downloadProgressCallback false logLevel) (fun t => t.total > 0)
      (fun t => t.Moving ∧ 0 ≤ t.percentMilestone)
      (fun a b => a.percentMilestone ≠ b.percentMilestone)
      (fun p last => p.lastNonTtyPercentMilestone =
        (last.map Tick.percentMilestone).getD (-1)) := by
  refine throttles_of_key hinfo Tick.percentMilestone (-1) (fun t hdue => by omega)
    DownloadProgress.lastNonTtyPercentMilestone
    (fun p t => { p with lastNonTtyPercentMilestone := t.percentMilestone }) ?_
    (fun _ _ => rfl) (fun _ _ => rfl) (fun _ _ => rfl)
  intro p t htotal ht
  simpa only [not_le] using callback_percent hinfo ht htotal

/-- Lines for a log when the total is unknown: one for each new interval of bytes. -/
lemma bytes_throttles {logLevel : ℤ} (hinfo : logIsEnabled logLevel logLevelInfo = true) :
    Throttles (downloadProgressCallback false logLevel) (fun t => t.total = 0)
      (fun t => t.Moving ∧ t.byteMilestone ≠ 0) (fun a b => a.byteMilestone ≠ b.byteMilestone)
      (fun p last => p.lastNonTtyByteMilestone = (last.map Tick.byteMilestone).getD 0) := by
  refine throttles_of_key hinfo Tick.byteMilestone 0 (fun t hdue => hdue)
    DownloadProgress.lastNonTtyByteMilestone
    (fun p t => { p with lastNonTtyByteMilestone := t.byteMilestone }) ?_
    (fun _ _ => rfl) (fun _ _ => rfl) (fun _ _ => rfl)
  intro p t htotal ht
  simpa only [not_not] using callback_bytes hinfo ht htotal

lemma shouldEmit_false_iff (nowMs lastEmitMs previousPercent currentPercent : ℤ) :
    logProgressShouldEmit nowMs lastEmitMs previousPercent currentPercent false = false ↔
      0 ≤ lastEmitMs ∧ nowMs - lastEmitMs < 500 ∧
        ¬ (0 ≤ currentPercent ∧ currentPercent ≠ previousPercent ∧ 200 ≤ nowMs - lastEmitMs) := by
  simp only [logProgressShouldEmit, forceIntervalMs, percentIntervalMs, Bool.false_eq_true,
    if_false]
  split_ifs <;> simp <;> omega

/-- Far enough apart on a terminal: half a second, or a fifth when the percentage
has changed. -/
def Tick.Apart (a b : Tick) : Prop :=
  500 ≤ b.nowMs - a.nowMs ∨ (0 ≤ b.percent ∧ b.percent ≠ a.percent ∧ 200 ≤ b.nowMs - a.nowMs)

instance (a b : Tick) : Decidable (a.Apart b) := inferInstanceAs (Decidable (_ ∨ _))

/-- What the state remembers of the last line on a terminal. -/
def LastUpdate (p : DownloadProgress) : Option Tick → Prop
  | none => p.lastEmitMs < 0
  | some a => p.lastEmitMs = a.nowMs ∧ p.lastPercent = a.percent ∧ 0 ≤ a.nowMs

lemma tty_throttles {logLevel : ℤ} (hinfo : logIsEnabled logLevel logLevelInfo = true) :
    Throttles (downloadProgressCallback true logLevel) (fun t => 0 ≤ t.nowMs) Tick.Moving
      Tick.Apart LastUpdate := by
  have hguard : Throttles (downloadProgressCallback true logLevel) (fun t => 0 ≤ t.nowMs)
      (fun t => t.Moving ∧ True) Tick.Apart LastUpdate := by
    refine throttles_of_guard hinfo
      (fun p t => { p with lastEmitMs := t.nowMs, lastPercent := t.percent })
      (fun p t => logProgressShouldEmit t.nowMs p.lastEmitMs p.lastPercent t.percent false = false)
      (fun p t _ ht => callback_tty hinfo ht) ?_ ?_ (fun _ _ ht => ⟨rfl, rfl, ht⟩)
      (fun _ _ => rfl)
    · intro p last t hlast _
      rw [shouldEmit_false_iff]
      cases last with
      | none =>
        have hnever : p.lastEmitMs < 0 := hlast
        simp only [Option.mem_def, reduceCtorEq, IsEmpty.forall_iff, implies_true, and_self,
          not_true_eq_false, iff_false]
        omega
      | some a =>
        obtain ⟨hms, hpercent, hclock⟩ := hlast
        simp only [hms, hpercent, Option.mem_def, Option.some.injEq, forall_eq', true_and,
          Tick.Apart]
        omega
    · intro p last t hlast
      cases last with
      | none => exact hlast
      | some a => exact hlast
  simpa only [and_true] using hguard

lemma downloadProgressPercent_eq {transferred total : ℕ} (hle : transferred ≤ total)
    (htotal : 0 < total) :
    downloadProgressPercent transferred total =
      ((transferred * 100 % 2 ^ 64 / total : ℕ) : ℤ) := by
  have hquotient := quotient_le hle
  unfold downloadProgressPercent
  rw [if_neg (by omega)]
  generalize transferred * 100 % 2 ^ 64 / total = q at hquotient ⊢
  exact if_neg (by omega)

lemma quotient_exact {transferred : ℕ} (h : 100 * transferred < 2 ^ 64) (total : ℕ) :
    transferred * 100 % 2 ^ 64 / total = 100 * transferred / total := by
  rw [Nat.mul_comm transferred 100, Nat.mod_eq_of_lt h]

/-- A product that wraps loses at least one. -/
lemma quotient_wrapped {transferred total : ℕ} (htotal : 0 < total) (hrange : total < 2 ^ 63)
    (h : 2 ^ 64 ≤ 100 * transferred) :
    transferred * 100 % 2 ^ 64 / total < 100 * transferred / total := by
  have hlost : transferred * 100 % 2 ^ 64 + total ≤ 100 * transferred := by omega
  calc transferred * 100 % 2 ^ 64 / total < transferred * 100 % 2 ^ 64 / total + 1 :=
        Nat.lt_succ_self _
    _ = (transferred * 100 % 2 ^ 64 + total) / total := (Nat.add_div_right _ htotal).symm
    _ ≤ 100 * transferred / total := Nat.div_le_div_right hlost

/-- Both percentages are the exact one if and only if the product does not wrap.
They always agree, lie between 0 and 100, and are 100 only at the end. -/
theorem percent_exact_iff (transferred total : ℕ) (hle : transferred ≤ total)
    (htotal : 0 < total) (hrange : total < 2 ^ 63) :
    (downloadProgressPercent transferred total = (100 * transferred / total : ℕ) ∧
        linePercent transferred total = (100 * transferred / total : ℕ) ↔
      100 * transferred < 2 ^ 64) ∧
    downloadProgressPercent transferred total = linePercent transferred total ∧
    0 ≤ downloadProgressPercent transferred total ∧
    downloadProgressPercent transferred total ≤ 100 ∧
    (downloadProgressPercent transferred total = 100 → transferred = total) ∧
    (100 * transferred < 2 ^ 64 → ∀ earlier ≤ transferred,
      downloadProgressPercent earlier total ≤ downloadProgressPercent transferred total) := by
  have hquotient := quotient_le hle
  rw [linePercent_eq hle, downloadProgressPercent_eq hle htotal]
  refine ⟨⟨?_, ?_⟩, rfl, Int.natCast_nonneg _, Int.ofNat_le.mpr hquotient, ?_, ?_⟩
  · intro hexact
    by_contra hwraps
    have hless := quotient_wrapped htotal hrange (not_lt.mp hwraps)
    exact absurd (Int.ofNat_inj.mp hexact.1) (ne_of_lt hless)
  · intro hfits
    rw [quotient_exact hfits]
    exact ⟨rfl, rfl⟩
  · intro hhundred
    have hmul : 100 * total ≤ transferred * 100 % 2 ^ 64 :=
      (Nat.le_div_iff_mul_le htotal).mp (Int.ofNat_inj.mp hhundred).ge
    have hmod := Nat.mod_le (transferred * 100) (2 ^ 64)
    omega
  · intro hfits earlier hearlier
    rw [downloadProgressPercent_eq (hearlier.trans hle) htotal, quotient_exact hfits,
      quotient_exact (by omega)]
    exact Int.ofNat_le.mpr (Nat.div_le_div_right (Nat.mul_le_mul_left 100 hearlier))

theorem percent_exact_iff_half :
    (1 ≤ 2 ∧ 0 < 2 ∧ 2 < 2 ^ 63) ∧
      (downloadProgressPercent 1 2 = (100 * 1 / 2 : ℕ) ∧ linePercent 1 2 = (100 * 1 / 2 : ℕ) ↔
        100 * 1 < 2 ^ 64) :=
  ⟨by decide, (percent_exact_iff 1 2 (by decide) (by decide) (by decide)).1⟩

/-- A complete transfer of 4 EiB is reported as 0 percent, less than a part of it. -/
theorem percent_wraps :
    0 < 2 ^ 62 ∧ 2 ^ 62 < 2 ^ 63 ∧ 100 * 2 ^ 62 / 2 ^ 62 = 100 ∧
      downloadProgressPercent (2 ^ 62) (2 ^ 62) = 0 ∧ linePercent (2 ^ 62) (2 ^ 62) = 0 ∧
      downloadProgressPercent (2 ^ 62) (2 ^ 62) < downloadProgressPercent (2 ^ 57) (2 ^ 62) := by
  decide +kernel

/-- The calls of one download: one total, whose percentages do not wrap, counters
that never decrease, and a clock that never runs backwards. -/
structure Download (dltotal startedMs : ℤ) (ticks : List Tick) : Prop where
  total : ∀ t ∈ ticks, t.dltotal = dltotal
  range : 100 * dltotal < 2 ^ 64
  grows : ticks.Pairwise (fun a b => a.dlnow ≤ b.dlnow)
  started : 0 ≤ startedMs
  clock : (startedMs :: ticks.flatMap (fun t => [t.nowMs, t.renderMs])).Pairwise (· ≤ ·)

lemma Download.nowMs_nonneg {dltotal startedMs : ℤ} {ticks : List Tick}
    (h : Download dltotal startedMs ticks) : ∀ t ∈ ticks, 0 ≤ t.nowMs := by
  intro t ht
  have hread : t.nowMs ∈ ticks.flatMap (fun t => [t.nowMs, t.renderMs]) :=
    List.mem_flatMap.mpr ⟨t, ht, List.mem_cons_self⟩
  exact h.started.trans ((List.pairwise_cons.mp h.clock).1 _ hread)

lemma Tick.transferred_le {a b : Tick} (h : a.dlnow ≤ b.dlnow) : a.transferred ≤ b.transferred := by
  unfold Tick.transferred
  split_ifs <;> omega

lemma Download.tick_total {dltotal startedMs : ℤ} {ticks : List Tick}
    (h : Download dltotal startedMs ticks) {t : Tick} (ht : t ∈ ticks) :
    t.total = dltotal.toNat := by
  rw [Tick.total, h.total t ht]
  split_ifs <;> omega

lemma logProgressPercentMilestone_mono : Monotone logProgressPercentMilestone := by
  intro a b hab
  unfold logProgressPercentMilestone minPercentMilestone
  split_ifs <;> omega

/-- Before the end the percentage is exact and below 100. -/
lemma Tick.percent_eq {t : Tick} (ht : t.Moving) (htotal : 0 < t.total)
    (hrange : 100 * t.total < 2 ^ 64) :
    t.percent = (100 * t.transferred / t.total : ℕ) ∧ 100 * t.transferred / t.total < 100 := by
  have hlt : t.transferred < t.total := by
    by_contra hge
    exact ht.2 ⟨htotal, not_lt.mp hge⟩
  constructor
  · rw [Tick.percent, downloadProgressPercent_eq hlt.le htotal, quotient_exact (by omega)]
  · rw [Nat.div_lt_iff_lt_mul htotal]
    omega

lemma Tick.percentMilestone_le {a b : Tick} (ha : a.Moving) (hb : b.Moving)
    (htotal : 0 < a.total) (hsame : a.total = b.total) (hrange : 100 * a.total < 2 ^ 64)
    (hdlnow : a.dlnow ≤ b.dlnow) : a.percentMilestone ≤ b.percentMilestone := by
  refine logProgressPercentMilestone_mono ?_
  rw [(Tick.percent_eq ha htotal hrange).1,
    (Tick.percent_eq hb (hsame ▸ htotal) (hsame ▸ hrange)).1, hsame]
  exact Int.ofNat_le.mpr
    (Nat.div_le_div_right (Nat.mul_le_mul_left 100 (Tick.transferred_le hdlnow)))

/-- A milestone that is reached before the end is one of nine. -/
lemma Tick.percentMilestone_range {t : Tick} (ht : t.Moving) (htotal : 0 < t.total)
    (hrange : 100 * t.total < 2 ^ 64) (hreached : 0 ≤ t.percentMilestone) :
    10 ∣ t.percentMilestone ∧ 10 ≤ t.percentMilestone ∧ t.percentMilestone ≤ 90 := by
  obtain ⟨hpercent, hlt⟩ := Tick.percent_eq ht htotal hrange
  revert hreached
  rw [Tick.percentMilestone, hpercent, logProgressPercentMilestone, minPercentMilestone]
  generalize 100 * t.transferred / t.total = q at hlt ⊢
  split_ifs <;> omega

/-- For a known total the lines in a log are at rising milestones, at most nine. -/
lemma percent_lines {logLevel dltotal startedMs : ℤ}
    (hinfo : logIsEnabled logLevel logLevelInfo = true) {ticks : List Tick}
    (h : Download dltotal startedMs ticks) (hpos : 0 < dltotal) :
    ((rendered false logLevel startedMs ticks).map Tick.percentMilestone).Pairwise (· < ·) ∧
      (∀ m ∈ (rendered false logLevel startedMs ticks).map Tick.percentMilestone,
        10 ∣ m ∧ 10 ≤ m ∧ m ≤ 90) := by
  have htotal : ∀ t ∈ ticks, 0 < t.total ∧ 100 * t.total < 2 ^ 64 := by
    intro t ht
    have hrange := h.range
    rw [h.tick_total ht]
    omega
  have hlist := emitted_eq_destutter (percent_throttles hinfo)
    (s := downloadProgressInit startedMs) rfl (fun t ht => (htotal t ht).1)
  set kept := ticks.filter (fun t => decide (t.Moving ∧ 0 ≤ t.percentMilestone)) with hkept
  have hmem : ∀ t ∈ kept, t ∈ ticks ∧ t.Moving ∧ 0 ≤ t.percentMilestone := by
    intro t ht
    rw [hkept, List.mem_filter, decide_eq_true_eq] at ht
    exact ht
  have hrising : kept.Pairwise (fun a b => a.percentMilestone ≤ b.percentMilestone) := by
    refine (h.grows.sublist List.filter_sublist).imp_of_mem ?_
    intro a b ha hb hdlnow
    obtain ⟨hat, hamoving, -⟩ := hmem a ha
    obtain ⟨hbt, hbmoving, -⟩ := hmem b hb
    have hsame : a.total = b.total := (h.tick_total hat).trans (h.tick_total hbt).symm
    exact Tick.percentMilestone_le hamoving hbmoving (htotal a hat).1 hsame (htotal a hat).2 hdlnow
  rw [rendered, hlist]
  refine ⟨destutter_strict Tick.percentMilestone hrising, ?_⟩
  intro m hm
  obtain ⟨t, ht, rfl⟩ := List.mem_map.mp hm
  obtain ⟨hticks, hmoving, hreached⟩ := hmem t ((List.destutter_sublist _ _).mem ht)
  exact Tick.percentMilestone_range hmoving (htotal t hticks).1 (htotal t hticks).2 hreached

lemma Tick.byteMilestone_le {a b : Tick} (h : a.dlnow ≤ b.dlnow) :
    a.byteMilestone ≤ b.byteMilestone := by
  have hinterval : nonTtyByteInterval ≠ 0 := by decide
  rw [Tick.byteMilestone, Tick.byteMilestone, logProgressByteMilestone, logProgressByteMilestone,
    if_neg hinterval, if_neg hinterval]
  exact Nat.div_le_div_right (Tick.transferred_le h)

/-- The last call has the largest counter. -/
lemma Download.dlnow_le_last {dltotal startedMs : ℤ} {ticks : List Tick}
    (h : Download dltotal startedMs ticks) {last : Tick} (hlast : last ∈ ticks.getLast?) {t : Tick}
    (ht : t ∈ ticks) : t.dlnow ≤ last.dlnow := by
  obtain ⟨earlier, rfl⟩ := List.getLast?_eq_some_iff.mp hlast
  have hgrows := (List.pairwise_append.mp h.grows).2.2
  cases List.mem_append.mp ht with
  | inl hearlier => exact hgrows t hearlier last (List.mem_singleton_self last)
  | inr hsame => rw [List.mem_singleton.mp hsame]

/-- For an unknown total the lines in a log are at rising milestones, at most one
for each interval of the bytes that have arrived. -/
lemma byte_lines {logLevel dltotal startedMs : ℤ}
    (hinfo : logIsEnabled logLevel logLevelInfo = true) {ticks : List Tick}
    (h : Download dltotal startedMs ticks) (hunknown : dltotal ≤ 0) :
    ((rendered false logLevel startedMs ticks).map Tick.byteMilestone).Pairwise (· < ·) ∧
      (∀ last ∈ ticks.getLast?,
        ∀ m ∈ (rendered false logLevel startedMs ticks).map Tick.byteMilestone,
          1 ≤ m ∧ m ≤ last.dlnow.toNat / nonTtyByteInterval) := by
  have htotal : ∀ t ∈ ticks, t.total = 0 := by
    intro t ht
    rw [h.tick_total ht]
    omega
  have hlist := emitted_eq_destutter (bytes_throttles hinfo)
    (s := downloadProgressInit startedMs) rfl htotal
  have hrising : (ticks.filter (fun t => decide (t.Moving ∧ t.byteMilestone ≠ 0))).Pairwise
      (fun a b => a.byteMilestone ≤ b.byteMilestone) :=
    (h.grows.sublist List.filter_sublist).imp (fun hdlnow => Tick.byteMilestone_le hdlnow)
  rw [rendered, hlist]
  refine ⟨destutter_strict Tick.byteMilestone hrising, ?_⟩
  intro last hlast m hm
  obtain ⟨t, ht, rfl⟩ := List.mem_map.mp hm
  obtain ⟨hticks, helig⟩ := List.mem_filter.mp ((List.destutter_sublist _ _).mem ht)
  have hreached : t.byteMilestone ≠ 0 := (of_decide_eq_true helig).2
  refine ⟨Nat.one_le_iff_ne_zero.mpr hreached, ?_⟩
  calc t.byteMilestone ≤ last.byteMilestone :=
        Tick.byteMilestone_le (h.dlnow_le_last hlast hticks)
    _ ≤ last.dlnow.toNat / nonTtyByteInterval := by
      rw [Tick.byteMilestone, logProgressByteMilestone, if_neg (by decide)]
      refine Nat.div_le_div_right ?_
      unfold Tick.transferred
      split_ifs <;> omega

/-- On a terminal consecutive updates are far enough apart. -/
lemma tty_updates {logLevel dltotal startedMs : ℤ}
    (hinfo : logIsEnabled logLevel logLevelInfo = true) {ticks : List Tick}
    (h : Download dltotal startedMs ticks) :
    (rendered true logLevel startedMs ticks).IsChain Tick.Apart := by
  have hlist := emitted_eq_destutter (tty_throttles hinfo)
    (s := downloadProgressInit startedMs) (Int.negSucc_lt_zero 0) h.nowMs_nonneg
  rw [rendered, hlist]
  exact List.isChain_destutter _ _

/-- Progress output is bounded over a whole download, however often the callback
is called. -/
theorem progress_output_bounded (logLevel dltotal startedMs : ℤ) (ticks : List Tick)
    (hinfo : logIsEnabled logLevel logLevelInfo = true)
    (hdownload : Download dltotal startedMs ticks) :
    (0 < dltotal →
      let milestones := (rendered false logLevel startedMs ticks).map Tick.percentMilestone
      milestones.Pairwise (· < ·) ∧ (∀ m ∈ milestones, 10 ∣ m ∧ 10 ≤ m ∧ m ≤ 90) ∧
        (rendered false logLevel startedMs ticks).length ≤ 9) ∧
    (dltotal ≤ 0 →
      ((rendered false logLevel startedMs ticks).map Tick.byteMilestone).Pairwise (· < ·) ∧
        ∀ last ∈ ticks.getLast?, (rendered false logLevel startedMs ticks).length ≤
          last.dlnow.toNat / nonTtyByteInterval) ∧
    (rendered true logLevel startedMs ticks).IsChain (fun a b =>
      200 ≤ b.nowMs - a.nowMs ∧ (a.percent = b.percent → 500 ≤ b.nowMs - a.nowMs)) := by
  refine ⟨?_, ?_, ?_⟩
  · intro hpos
    obtain ⟨hstrict, hrange⟩ := percent_lines hinfo hdownload hpos
    refine ⟨hstrict, hrange, ?_⟩
    have hnine : ∀ m ∈ (rendered false logLevel startedMs ticks).map Tick.percentMilestone,
        m ∈ (Finset.Icc (1 : ℤ) 9).image (10 * ·) := by
      intro m hm
      obtain ⟨⟨k, rfl⟩, hlow, hhigh⟩ := hrange m hm
      exact Finset.mem_image.mpr ⟨k, Finset.mem_Icc.mpr ⟨by omega, by omega⟩, rfl⟩
    have hlength := length_le_of_strict hstrict hnine
    rw [List.length_map] at hlength
    exact hlength.trans Finset.card_image_le
  · intro hunknown
    obtain ⟨hstrict, hrange⟩ := byte_lines hinfo hdownload hunknown
    refine ⟨hstrict, ?_⟩
    intro last hlast
    have hlength := length_le_of_strict hstrict
      (fun m hm => Finset.mem_Icc.mpr (hrange last hlast m hm))
    rw [List.length_map, Nat.card_Icc, Nat.add_sub_cancel] at hlength
    exact hlength
  · refine (tty_updates hinfo hdownload).imp ?_
    intro a b hapart
    unfold Tick.Apart at hapart
    omega

/-- Five calls while 20 MiB arrive. -/
def sampleTicks (dltotal : ℤ) : List Tick :=
  [⟨dltotal, 3145728, 1000, 1000⟩, ⟨dltotal, 6291456, 1100, 1100⟩,
    ⟨dltotal, 6815744, 1300, 1301⟩, ⟨dltotal, 12582912, 1900, 1900⟩,
    ⟨dltotal, 20971520, 2000, 2000⟩]

theorem progress_output_bounded_sample :
    Download 20971520 900 (sampleTicks 20971520) ∧ Download 0 900 (sampleTicks 0) ∧
      ((rendered false logLevelInfo 900 (sampleTicks 20971520)).map Tick.percentMilestone =
          [10, 30, 60] ∧
        (rendered false logLevelInfo 900 (sampleTicks 20971520)).length ≤ 9) ∧
      ((rendered false logLevelInfo 900 (sampleTicks 0)).map Tick.byteMilestone = [1, 2, 4] ∧
        ((rendered false logLevelInfo 900 (sampleTicks 0)).map Tick.byteMilestone).Pairwise
          (· < ·)) ∧
      (rendered true logLevelInfo 900 (sampleTicks 20971520)).map Tick.nowMs =
        [1000, 1300, 1900] ∧
      (rendered true logLevelInfo 900 (sampleTicks 20971520)).IsChain (fun a b =>
        200 ≤ b.nowMs - a.nowMs ∧ (a.percent = b.percent → 500 ≤ b.nowMs - a.nowMs)) :=
  have hknown : Download 20971520 900 (sampleTicks 20971520) :=
    ⟨by decide, by decide, by decide, by decide, by decide⟩
  have hunknown : Download 0 900 (sampleTicks 0) :=
    ⟨by decide, by decide, by decide, by decide, by decide⟩
  have hbounded := progress_output_bounded logLevelInfo 20971520 900 _ rfl hknown
  ⟨hknown, hunknown, ⟨by decide +kernel, (hbounded.1 (by decide)).2.2⟩,
    ⟨by decide +kernel, ((progress_output_bounded logLevelInfo 0 900 _ rfl hunknown).2.1 le_rfl).1⟩,
    by decide +kernel, hbounded.2.2⟩

/-- What a callback hands to `log.c` is an update in printable ASCII. -/
lemma callback_update {logLevel : ℤ} (hinfo : logIsEnabled logLevel logLevelInfo = true)
    {p : DownloadProgress} {t : Tick} {c : LogCall}
    (hc : (downloadProgressCallback true logLevel p t).2 = some c) :
    ∃ line, Terminal.Plain line ∧ c = .update (some line) := by
  by_cases ht : t.Moving
  · rw [callback_tty hinfo ht] at hc
    split_ifs at hc
    obtain ⟨line, hplain, hline⟩ := downloadProgressRender_line hinfo t.renderMs
      (p := { p.seen t with lastEmitMs := t.nowMs, lastPercent := t.percent }) ht.1 false
    exact ⟨line, hplain, Option.some_inj.mp (hc.symm.trans hline)⟩
  · rw [callback_still ht] at hc
    cases hc

lemma updates_plain {logLevel : ℤ} (hinfo : logIsEnabled logLevel logLevelInfo = true)
    (p : DownloadProgress) (ticks : List Tick) :
    ∀ c ∈ (emitted (downloadProgressCallback true logLevel) p ticks).map Prod.snd,
      ∃ line, Terminal.Plain line ∧ c = .update (some line) := by
  induction ticks generalizing p with
  | nil => exact List.forall_mem_nil _
  | cons t ticks ih =>
    unfold emitted
    split
    · next c hc =>
      rw [List.map_cons, List.forall_mem_cons]
      exact ⟨callback_update hinfo hc, ih _⟩
    · exact ih _

/-- The progress after the calls of a download. -/
def progressAfter (isatty : Bool) (logLevel startedMs : ℤ) (ticks : List Tick) :
    DownloadProgress :=
  ticks.foldl (fun p t => (downloadProgressCallback isatty logLevel p t).1)
    (downloadProgressInit startedMs)

/-- On a terminal a finished download leaves one line, whatever was drawn before
it, and writes nothing to the log file. -/
theorem finished_download_leaves_one_line (logLevel startedMs clockMs : ℤ)
    (logFp : Option CPath.Bytes) (ticks : List Tick)
    (hinfo : logIsEnabled logLevel logLevelInfo = true)
    (harrived : (progressAfter true logLevel startedMs ticks).transferred ≠ 0) :
    let updates := (emitted (downloadProgressCallback true logLevel)
      (downloadProgressInit startedMs) ticks).map Prod.snd
    let last := downloadProgressRender logLevel clockMs
      (progressAfter true logLevel startedMs ticks) true
    let s := logRun true (LogState.initial logLevel logFp) (updates ++ last.toList)
    ∃ line, last = some (.finish (some line)) ∧
      List.Forall₂ Terminal.Shows s.screen.done [lineOf (text "PROGRESS") line] ∧
      Terminal.Shows s.screen.line [] ∧ s.logFp = logFp := by
  intro updates last s
  obtain ⟨line, hplain, hlast⟩ := downloadProgressRender_line hinfo clockMs harrived true
  have hupdates := updates_plain hinfo (downloadProgressInit startedMs) ticks
  have hlast : last = some (.finish (some line)) := hlast
  have hcalls : ∀ c ∈ updates ++ last.toList, c.Plain := by
    rw [hlast, Option.toList_some, List.forall_mem_append, List.forall_mem_singleton]
    constructor
    · intro c hc
      obtain ⟨drawn, hdrawn, rfl⟩ := hupdates c hc
      exact LogCall.plain_update hdrawn
    · exact LogCall.plain_finish hplain
  have hquiet : ∀ c ∈ updates, completedLine logLevel c = none ∧ logLine logLevel c = none := by
    intro c hc
    obtain ⟨drawn, -, rfl⟩ := hupdates c hc
    exact ⟨rfl, rfl⟩
  have htidy := (tidy_initial logLevel logFp).run hcalls
  have hfile := logRun_file true (LogState.initial logLevel logFp) (updates ++ last.toList)
  have hlines : (updates ++ last.toList).filterMap (completedLine logLevel) =
      [lineOf (text "PROGRESS") line] := by
    rw [List.filterMap_append, List.filterMap_eq_nil_iff.mpr (fun c hc => (hquiet c hc).1), hlast]
    simp [completedLine, hinfo]
  have hshown : (updates ++ last.toList).foldl (shownAfter logLevel) [] = [] := by
    rw [List.foldl_append, hlast]
    simp [shownAfter, completedLine, hinfo]
  have hnothing : fileLines logLevel (updates ++ last.toList) = [] := by
    rw [fileLines, List.filterMap_append,
      List.filterMap_eq_nil_iff.mpr (fun c hc => (hquiet c hc).2), hlast]
    rfl
  refine ⟨line, hlast, ?_, ?_, ?_⟩
  · rw [← hlines]
    exact htidy.done
  · rw [← hshown]
    exact htidy.line
  · rw [hfile]
    simp only [LogState.initial, hnothing, List.append_nil, Option.map_id']

theorem finished_download_leaves_one_line_sample :
    let updates := (emitted (downloadProgressCallback true logLevelInfo)
      (downloadProgressInit 900) (sampleTicks 20971520)).map Prod.snd
    let last := downloadProgressRender logLevelInfo 2100
      (progressAfter true logLevelInfo 900 (sampleTicks 20971520)) true
    let s := logRun true (LogState.initial logLevelInfo (some (text "kept")))
      (updates ++ last.toList)
    (progressAfter true logLevelInfo 900 (sampleTicks 20971520)).transferred = 20971520 ∧
      ∃ line, last = some (.finish (some line)) ∧
        List.Forall₂ Terminal.Shows s.screen.done [lineOf (text "PROGRESS") line] ∧
        Terminal.Shows s.screen.line [] ∧ s.logFp = some (text "kept") := by
  have harrived : (progressAfter true logLevelInfo 900 (sampleTicks 20971520)).transferred =
      20971520 := by
    decide +kernel
  exact ⟨harrived, finished_download_leaves_one_line logLevelInfo 900 2100 (some (text "kept"))
    (sampleTicks 20971520) rfl (by rw [harrived]; decide)⟩

end OtaFetch.Progress
