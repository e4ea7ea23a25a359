import OtaFetch.Memory
import OtaFetch.Manifest

/-!
# The memory of a manifest

`manifest_load` and `manifest_free` with every allocation. The stream, the text,
the parse tree and each string are blocks, and any of them can be refused. A
string that cannot be copied leaves its field `NULL` without a failure; an array
that cannot be allocated ends the load.
-/
namespace OtaFetch.ManifestMemory
open CPath Stdio Releases Memory

/-- A copied string and its block. -/
structure StrCell where
  block : ℕ
  data : CStr
  deriving Repr, DecidableEq

abbrev StrPtr := Option StrCell

def strBlock (p : StrPtr) : Block := p.map StrCell.block

structure FileCells where
  fileType : StrPtr
  filename : StrPtr
  sha256 : StrPtr
  path : StrPtr
  deriving Repr, DecidableEq

/-- `files` is the array and `slots` its elements. -/
structure ReleaseCells where
  deviceId : StrPtr
  releaseName : StrPtr
  releaseVersion : StrPtr
  created : StrPtr
  files : Block
  slots : List FileCells
  deriving Repr, DecidableEq

structure ManifestCells where
  block : ℕ
  manifestVersion : StrPtr
  created : StrPtr
  releases : Block
  slots : List ReleaseCells
  deriving Repr, DecidableEq

def FileCells.blank : FileCells := ⟨none, none, none, none⟩

def ReleaseCells.blank : ReleaseCells := ⟨none, none, none, none, none, []⟩

def freeFile (f : FileCells) : HeapM Unit := do
  free (strBlock f.fileType)
  free (strBlock f.filename)
  free (strBlock f.sha256)
  free (strBlock f.path)

def freeArray {β : Type} (freeOne : β → HeapM Unit) (array : Block) (slots : List β) :
    HeapM Unit :=
  match array with
  | none => pure ()
  | some b => do
    each freeOne slots
    free (some b)

def freeRelease (r : ReleaseCells) : HeapM Unit := do
  free (strBlock r.deviceId)
  free (strBlock r.releaseName)
  free (strBlock r.releaseVersion)
  free (strBlock r.created)
  freeArray freeFile r.files r.slots

def manifestFree (m : ManifestCells) : HeapM Unit := do
  free (strBlock m.manifestVersion)
  free (strBlock m.created)
  freeArray freeRelease m.releases m.slots
  free (some m.block)

/-- `dup_json_string`. -/
def dupString (obj : Json) (key : CStr) : HeapM StrPtr :=
  match dupJsonString obj key with
  | none => pure none
  | some s => do
    match ← alloc with
    | none => pure none
    | some b => pure (some ⟨b, s⟩)

def loadFileCells (fj : Json) : HeapM (FileCells × Bool) := do
  let fileType ← dupString fj (text "file_type")
  let filename ← dupString fj (text "filename")
  let sha256 ← dupString fj (text "sha256")
  let path ← dupString fj (text "path")
  pure (⟨fileType, filename, sha256, path⟩, true)

/-- The loop over the elements. A failure leaves the slots behind it zeroed. -/
def fillCells {β : Type} (blank : β) (fill : Json → HeapM (β × Bool)) :
    List Json → HeapM (List β × Bool)
  | [] => pure ([], true)
  | item :: rest =>
    if item.isObject then do
      let (cell, ok) ← fill item
      if ok then do
        let (cells, ok) ← fillCells blank fill rest
        pure (cell :: cells, ok)
      else pure (cell :: rest.map fun _ => blank, false)
    else do
      let (cells, ok) ← fillCells blank fill rest
      pure (blank :: cells, ok)

/-- The array for a member that is an array with elements. -/
def loadArray {β : Type} (blank : β) (fill : Json → HeapM (β × Bool)) (array : Option Json) :
    HeapM (Block × List β × Bool) :=
  match array with
  | some (.arr (item :: rest)) => do
    match ← alloc with
    | none => pure (none, [], false)
    | some b => do
      let (cells, ok) ← fillCells blank fill (item :: rest)
      pure (some b, cells, ok)
  | _ => pure (none, [], true)

def loadReleaseCells (rj : Json) : HeapM (ReleaseCells × Bool) := do
  let deviceId ← dupString rj (text "device_id")
  let releaseName ← dupString rj (text "release_name")
  let releaseVersion ← dupString rj (text "release_version")
  let created ← dupString rj (text "created")
  let (files, slots, ok) ← loadArray .blank loadFileCells (rj.getObjectItem (text "files"))
  pure (⟨deviceId, releaseName, releaseVersion, created, files, slots⟩, ok)

/-- `manifest_load` from the point where there is a parse tree. -/
def manifestBuild (rootBlock : ℕ) (root : Json) : HeapM (Option ManifestCells) := do
  match ← alloc with
  | none => do
    free (some rootBlock)
    pure none
  | some block => do
    let manifestVersion ← dupString root (text "manifest_version")
    let created ← dupString root (text "created")
    let (releases, slots, ok) ←
      loadArray .blank loadReleaseCells (root.getObjectItem (text "releases"))
    let m : ManifestCells := ⟨block, manifestVersion, created, releases, slots⟩
    if ok then do
      free (some rootBlock)
      pure (some m)
    else do
      manifestFree m
      free (some rootBlock)
      pure none

/-- `cJSON_Parse`: the tree is one block, and running out of memory is a failure. -/
def cjsonParse (cjson : CJson) (data : CStr) : HeapM (Option (ℕ × Json)) :=
  match cjson.parse data with
  | none => pure none
  | some j => do
    match ← alloc with
    | none => pure none
    | some b => pure (some (b, j))

/-- From the point where the text has been read. -/
def manifestText (cjson : CJson) (buf : ℕ) (data : Bytes) : HeapM (Option ManifestCells) := do
  let root ← cjsonParse cjson (cstring data)
  free (some buf)
  match root with
  | none => pure none
  | some (b, root) =>
    if root.isObject then manifestBuild b root
    else do
      free (some b)
      pure none

/-- The buffer for the text can also be too large. -/
def allocText (a : WholeAnswer) : HeapM Block := if a.malloc then alloc else pure none

/-- From the point where the length of the file is known. -/
def readText (cjson : CJson) (fp : ℕ) (a : WholeAnswer) (data : Bytes) :
    HeapM (Option ManifestCells) := do
  match ← allocText a with
  | none => do
    free (some fp)
    pure none
  | some buf => do
    free (some fp)
    manifestText cjson buf (data.take a.nread)

/-- `manifest_load`. A directory can be opened, and nothing is read of it. -/
def manifestLoadCells (cjson : CJson) (a : WholeAnswer) (src : Source) :
    HeapM (Option ManifestCells) :=
  if src = .missing ∨ a.fopen = false then pure none
  else do
    match ← alloc with
    | none => pure none
    | some fp =>
      if a.seekEnd && a.tell then readText cjson fp a src.bytes
      else do
        free (some fp)
        pure none

/-- The blocks of an array and of what is in it. -/
def ownedArray {β : Type} (own : β → Multiset ℕ) (array : Block) (slots : List β) : Multiset ℕ :=
  match array with
  | none => 0
  | some b => (slots.map own).sum + {b}

def FileCells.own (f : FileCells) : Multiset ℕ :=
  owned (strBlock f.fileType) + (owned (strBlock f.filename) +
    (owned (strBlock f.sha256) + owned (strBlock f.path)))

def ReleaseCells.own (r : ReleaseCells) : Multiset ℕ :=
  owned (strBlock r.deviceId) + (owned (strBlock r.releaseName) +
    (owned (strBlock r.releaseVersion) + (owned (strBlock r.created) +
      ownedArray FileCells.own r.files r.slots)))

def ManifestCells.own (m : ManifestCells) : Multiset ℕ :=
  owned (strBlock m.manifestVersion) + (owned (strBlock m.created) +
    (ownedArray ReleaseCells.own m.releases m.slots + {m.block}))

/-- One block is given back and the rest is for later. -/
lemma owns_free {β : Type} (p : Block) {rest : HeapM β} {other : Multiset ℕ}
    {give : β → Multiset ℕ} (h : Owns rest other give) :
    Owns (do free p; rest) (owned p + other) give :=
  Owns.bindFrame (Owns.free p) rfl (fun _ => h.mono (zero_add _) (fun _ => rfl))

lemma freeFile_owns (f : FileCells) : Owns (freeFile f) f.own (fun _ => 0) :=
  owns_free _ (owns_free _ (owns_free _ (Owns.free _)))

lemma freeArray_owns {β : Type} {freeOne : β → HeapM Unit} {own : β → Multiset ℕ}
    (h : ∀ b, Owns (freeOne b) (own b) (fun _ => 0)) (array : Block) (slots : List β) :
    Owns (freeArray freeOne array slots) (ownedArray own array slots) (fun _ => 0) := by
  cases array with
  | none => exact Owns.pure rfl
  | some b =>
    refine Owns.bindFrame (Owns.each h slots) rfl (fun _ => ?_)
    exact (Owns.free (some b)).mono (zero_add _) (fun _ => rfl)

lemma freeRelease_owns (r : ReleaseCells) : Owns (freeRelease r) r.own (fun _ => 0) :=
  owns_free _ (owns_free _ (owns_free _ (owns_free _ (freeArray_owns freeFile_owns _ _))))

lemma manifestFree_owns (m : ManifestCells) : Owns (manifestFree m) m.own (fun _ => 0) := by
  refine owns_free _ (owns_free _ ?_)
  refine Owns.bindFrame (freeArray_owns freeRelease_owns _ _) rfl (fun _ => ?_)
  exact (Owns.free (some m.block)).mono (zero_add _) (fun _ => rfl)

lemma dupString_owns (obj : Json) (key : CStr) :
    Owns (dupString obj key) 0 (fun p => owned (strBlock p)) := by
  unfold dupString
  split
  · exact Owns.pure rfl
  · refine Owns.alloc.bind (fun r => ?_)
    cases r with
    | none => exact Owns.pure rfl
    | some b => exact Owns.pure rfl

/-- A string is copied and the rest goes on with its block. -/
lemma owns_dup {β : Type} (obj : Json) (key : CStr) {f : StrPtr → HeapM β} {held : Multiset ℕ}
    {give : β → Multiset ℕ} (h : ∀ p, Owns (f p) (owned (strBlock p) + held) give) :
    Owns (dupString obj key >>= f) held give :=
  Owns.bindFrame (dupString_owns obj key) (zero_add held).symm h

lemma loadFileCells_owns (fj : Json) : Owns (loadFileCells fj) 0 (fun r => r.1.own) := by
  refine owns_dup _ _ fun fileType => owns_dup _ _ fun filename => ?_
  refine owns_dup _ _ fun sha256 => owns_dup _ _ fun path => Owns.pure ?_
  unfold FileCells.own
  abel

lemma fillCells_owns {β : Type} {blank : β} {fill : Json → HeapM (β × Bool)}
    {own : β → Multiset ℕ} (hblank : own blank = 0)
    (hfill : ∀ j, Owns (fill j) 0 (fun r => own r.1)) (items : List Json) :
    Owns (fillCells blank fill items) 0 (fun r => (r.1.map own).sum) := by
  induction items with
  | nil => exact Owns.pure rfl
  | cons item rest ih =>
    have hzeroed : ((rest.map fun _ => blank).map own).sum = 0 := by
      simp [hblank]
    unfold fillCells
    split_ifs
    · refine (hfill item).bind fun r => ?_
      obtain ⟨cell, ok⟩ := r
      dsimp only
      split_ifs
      · refine Owns.bindFrame ih (zero_add _).symm fun r => Owns.pure ?_
        rw [List.map_cons, List.sum_cons, add_comm]
      · refine Owns.pure ?_
        rw [List.map_cons, List.sum_cons, hzeroed, add_zero]
    · refine ih.bind fun r => Owns.pure ?_
      rw [List.map_cons, List.sum_cons, hblank, zero_add]

lemma loadArray_owns {β : Type} {blank : β} {fill : Json → HeapM (β × Bool)}
    {own : β → Multiset ℕ} (hblank : own blank = 0)
    (hfill : ∀ j, Owns (fill j) 0 (fun r => own r.1)) (array : Option Json) :
    Owns (loadArray blank fill array) 0 (fun r => ownedArray own r.1 r.2.1) := by
  unfold loadArray
  split
  · refine Owns.alloc.bind fun r => ?_
    cases r with
    | none => exact Owns.pure rfl
    | some b =>
      refine Owns.bindFrame (fillCells_owns hblank hfill _) (zero_add _).symm fun r => ?_
      exact Owns.pure rfl
  · exact Owns.pure rfl

lemma loadReleaseCells_owns (rj : Json) : Owns (loadReleaseCells rj) 0 (fun r => r.1.own) := by
  have hblank : FileCells.blank.own = 0 := rfl
  have hfiles := loadArray_owns hblank loadFileCells_owns (rj.getObjectItem (text "files"))
  refine owns_dup _ _ fun deviceId => owns_dup _ _ fun releaseName => ?_
  refine owns_dup _ _ fun releaseVersion => owns_dup _ _ fun created => ?_
  refine Owns.bindFrame hfiles (zero_add _).symm fun r => Owns.pure ?_
  unfold ReleaseCells.own
  abel

/-- A manifest belongs to the caller, and `NULL` owns nothing. -/
def ownedResult : Option ManifestCells → Multiset ℕ
  | none => 0
  | some m => m.own

/-- What remains to be freed on the way out with `NULL`. -/
lemma owns_free_null (p : Block) :
    Owns (do free p; pure none) (owned p) ownedResult :=
  (Owns.free p).bind fun _ => Owns.pure rfl

lemma manifestBuild_owns (rootBlock : ℕ) (root : Json) :
    Owns (manifestBuild rootBlock root) {rootBlock} ownedResult := by
  unfold manifestBuild
  refine Owns.bindFrame Owns.alloc (zero_add _).symm fun r => ?_
  cases r with
  | none => exact (owns_free_null (some rootBlock)).mono (zero_add _) fun _ => rfl
  | some block =>
    have hblank : ReleaseCells.blank.own = 0 := rfl
    have hreleases := loadArray_owns hblank loadReleaseCells_owns
      (root.getObjectItem (text "releases"))
    refine owns_dup _ _ fun version => owns_dup _ _ fun created => ?_
    refine Owns.bindFrame hreleases (zero_add _).symm fun r => ?_
    obtain ⟨releases, slots, ok⟩ := r
    -- the manifest as far as it has been built, and the parse tree
    have hheld : ownedArray ReleaseCells.own releases slots + (owned (strBlock created) +
        (owned (strBlock version) + ({block} + {rootBlock}))) =
        ManifestCells.own ⟨block, version, created, releases, slots⟩ + owned (some rootBlock) := by
      rw [ManifestCells.own, owned_some]
      abel
    dsimp only
    split_ifs
    · refine Owns.bindFrame (Owns.free (some rootBlock)) (hheld.trans (add_comm _ _)) fun _ => ?_
      exact Owns.pure (zero_add _)
    · refine Owns.bindFrame (manifestFree_owns _) hheld fun _ => ?_
      exact (owns_free_null (some rootBlock)).mono (zero_add _) fun _ => rfl

lemma manifestText_owns (cjson : CJson) (buf : ℕ) (data : Bytes) :
    Owns (manifestText cjson buf data) {buf} ownedResult := by
  have hparse : Owns (cjsonParse cjson (cstring data)) 0 (fun r => owned (r.map Prod.fst)) := by
    unfold cjsonParse
    split
    · exact Owns.pure rfl
    · refine Owns.alloc.bind fun r => ?_
      cases r with
      | none => exact Owns.pure rfl
      | some b => exact Owns.pure rfl
  unfold manifestText
  refine Owns.bindFrame hparse (zero_add _).symm fun root => ?_
  refine Owns.bindFrame (Owns.free (some buf)) (add_comm _ _) fun _ => ?_
  rw [zero_add]
  cases root with
  | none => exact Owns.pure rfl
  | some root =>
    obtain ⟨b, root⟩ := root
    dsimp only
    split_ifs
    · exact manifestBuild_owns b root
    · exact owns_free_null (some b)

/-- The stream is closed whether or not there is a buffer for the text. -/
lemma readText_owns (cjson : CJson) (fp : ℕ) (a : WholeAnswer) (data : Bytes) :
    Owns (readText cjson fp a data) {fp} ownedResult := by
  have hbuf : Owns (allocText a) 0 owned := by
    unfold allocText
    split_ifs
    · exact Owns.alloc
    · exact Owns.pure rfl
  unfold readText
  refine Owns.bindFrame hbuf (zero_add _).symm fun r => ?_
  cases r with
  | none => exact (owns_free_null (some fp)).mono (zero_add _) fun _ => rfl
  | some buf =>
    refine Owns.bindFrame (Owns.free (some fp)) (add_comm _ _) fun _ => ?_
    exact (manifestText_owns cjson buf _).mono (zero_add _) fun _ => rfl

lemma manifestLoadCells_owns (cjson : CJson) (a : WholeAnswer) (src : Source) :
    Owns (manifestLoadCells cjson a src) 0 ownedResult := by
  unfold manifestLoadCells
  by_cases hopen : src = .missing ∨ a.fopen = false
  · rw [if_pos hopen]
    exact Owns.pure rfl
  · rw [if_neg hopen]
    refine Owns.alloc.bind fun r => ?_
    cases r with
    | none => exact Owns.pure rfl
    | some fp =>
      dsimp only
      split_ifs
      · exact readText_owns cjson fp a src.bytes
      · exact owns_free_null (some fp)

/-- Whatever allocations fail, `manifest_load` frees no block that is not its own.
When it returns `NULL` it has given everything back, and otherwise
`manifest_free` gives everything back. -/
theorem manifestLoad_leaks_nothing (cjson : CJson) (a : WholeAnswer) (src : Source) (h : Heap) :
    ((manifestLoadCells cjson a src) h).2.bad = h.bad ∧
      match (manifestLoadCells cjson a src) h with
      | (none, h') => h'.live = h.live
      | (some m, h') =>
        ((manifestFree m) h').2.live = h.live ∧ ((manifestFree m) h').2.bad = h.bad := by
  obtain ⟨hlive, hbad⟩ := manifestLoadCells_owns cjson a src h h.live (add_zero _).symm
  refine ⟨hbad, ?_⟩
  generalize (manifestLoadCells cjson a src) h = result at hlive hbad
  obtain ⟨r, h'⟩ := result
  cases r with
  | none => exact hlive.trans (add_zero _)
  | some m =>
    obtain ⟨hfreed, hbad'⟩ := manifestFree_owns m h' h.live hlive
    exact ⟨hfreed.trans (add_zero _), hbad'.trans hbad⟩

def strData (p : StrPtr) : Option CStr := p.map StrCell.data

def FileCells.entry (f : FileCells) : ManifestFile :=
  ⟨strData f.fileType, strData f.filename, strData f.sha256, strData f.path⟩

def ReleaseCells.entry (r : ReleaseCells) : ManifestRelease :=
  ⟨strData r.deviceId, strData r.releaseName, strData r.releaseVersion, strData r.created,
    r.slots.map FileCells.entry⟩

/-- The manifest without its addresses. -/
def ManifestCells.entry (m : ManifestCells) : Manifest :=
  ⟨strData m.manifestVersion, strData m.created, m.slots.map ReleaseCells.entry⟩

/-- The string, or `NULL` in its place unless memory is `full`y granted. -/
def KeepsStr (full : Prop) (p s : Option CStr) : Prop := p = s ∨ (p = none ∧ ¬ full)

structure KeepsFile (full : Prop) (f g : ManifestFile) : Prop where
  fileType : KeepsStr full f.fileType g.fileType
  filename : KeepsStr full f.filename g.filename
  sha256 : KeepsStr full f.sha256 g.sha256
  path : KeepsStr full f.path g.path

structure KeepsRelease (full : Prop) (r q : ManifestRelease) : Prop where
  deviceId : KeepsStr full r.deviceId q.deviceId
  releaseName : KeepsStr full r.releaseName q.releaseName
  releaseVersion : KeepsStr full r.releaseVersion q.releaseVersion
  created : KeepsStr full r.created q.created
  files : List.Forall₂ (KeepsFile full) r.files q.files

/-- Entry by entry, the strings of the second manifest or `NULL`. -/
structure KeepsManifest (full : Prop) (m n : Manifest) : Prop where
  manifestVersion : KeepsStr full m.manifestVersion n.manifestVersion
  created : KeepsStr full m.created n.created
  releases : List.Forall₂ (KeepsRelease full) m.releases n.releases

lemma KeepsStr.eq {full : Prop} (hfull : full) {p s : Option CStr} (h : KeepsStr full p s) :
    p = s := by
  cases h with
  | inl h => exact h
  | inr h => exact absurd hfull h.2

lemma KeepsStr.of_some {full : Prop} {p s : Option CStr} (h : KeepsStr full p s) {d : CStr}
    (hp : p = some d) : s = some d := by
  cases h with
  | inl h => exact h ▸ hp
  | inr h => rw [h.1] at hp; cases hp

lemma KeepsFile.eq {full : Prop} (hfull : full) {f g : ManifestFile} (h : KeepsFile full f g) :
    f = g := by
  obtain ⟨h₁, h₂, h₃, h₄⟩ := h
  cases f
  cases g
  rw [ManifestFile.mk.injEq]
  exact ⟨h₁.eq hfull, h₂.eq hfull, h₃.eq hfull, h₄.eq hfull⟩

lemma forall₂_eq {β : Type} {R : β → β → Prop} (hR : ∀ a b, R a b → a = b) {xs ys : List β}
    (h : List.Forall₂ R xs ys) : xs = ys :=
  List.forall₂_eq_eq_eq ▸ h.imp hR

lemma KeepsRelease.eq {full : Prop} (hfull : full) {r q : ManifestRelease}
    (h : KeepsRelease full r q) : r = q := by
  obtain ⟨h₁, h₂, h₃, h₄, h₅⟩ := h
  cases r
  cases q
  rw [ManifestRelease.mk.injEq]
  exact ⟨h₁.eq hfull, h₂.eq hfull, h₃.eq hfull, h₄.eq hfull,
    forall₂_eq (fun _ _ h => h.eq hfull) h₅⟩

lemma KeepsManifest.eq {full : Prop} (hfull : full) {m n : Manifest}
    (h : KeepsManifest full m n) : m = n := by
  obtain ⟨h₁, h₂, h₃⟩ := h
  cases m
  cases n
  rw [Manifest.mk.injEq]
  exact ⟨h₁.eq hfull, h₂.eq hfull, forall₂_eq (fun _ _ h => h.eq hfull) h₃⟩

lemma dupString_returns (full : Prop) (obj : Json) (key : CStr) :
    Returns full (dupString obj key)
      (fun p => KeepsStr full (strData p) (dupJsonString obj key)) := by
  unfold dupString
  generalize dupJsonString obj key = s
  cases s with
  | none => exact Returns.pure (Or.inl rfl)
  | some s =>
    refine (Returns.alloc full).bind fun r hr => ?_
    cases r with
    | none => exact Returns.pure (Or.inr ⟨rfl, hr rfl⟩)
    | some b => exact Returns.pure (Or.inl rfl)

/-- A loop or an allocation that ends well agrees with the plain loader, and it ends
well when memory is granted. -/
def Loaded {β γ : Type} (full : Prop) (R : β → γ → Prop) (b : β) (ok : Bool) (c : γ) : Prop :=
  (full → ok = true) ∧ (ok = true → R b c)

lemma loadFileCells_returns (full : Prop) (fj : Json) :
    Returns full (loadFileCells fj)
      (fun r => Loaded full (KeepsFile full) r.1.entry r.2 (loadFile fj)) := by
  refine (dupString_returns full fj _).bind fun _ h₁ => ?_
  refine (dupString_returns full fj _).bind fun _ h₂ => ?_
  refine (dupString_returns full fj _).bind fun _ h₃ => ?_
  refine (dupString_returns full fj _).bind fun _ h₄ => ?_
  exact Returns.pure ⟨fun _ => rfl, fun _ => ⟨h₁, h₂, h₃, h₄⟩⟩

lemma fillCells_returns {full : Prop} {β γ : Type} {entry : β → γ} {R : γ → γ → Prop} {blank : β}
    {blank' : γ} {fill : Json → HeapM (β × Bool)} {fill' : Json → γ}
    (hblank : R (entry blank) blank')
    (hfill : ∀ j, Returns full (fill j) (fun r => Loaded full R (entry r.1) r.2 (fill' j)))
    (items : List Json) :
    Returns full (fillCells blank fill items)
      (fun r => Loaded full (List.Forall₂ R) (r.1.map entry) r.2
        (items.map (slotOf blank' fill'))) := by
  induction items with
  | nil => exact Returns.pure ⟨fun _ => rfl, fun _ => .nil⟩
  | cons item rest ih =>
    unfold fillCells
    by_cases hobject : item.isObject
    · rw [if_pos hobject]
      have hslot : slotOf blank' fill' item = fill' item := if_pos hobject
      refine (hfill item).bind fun r hr => ?_
      obtain ⟨cell, ok⟩ := r
      cases ok with
      | true =>
        refine ih.bind fun r hrest => Returns.pure ⟨hrest.1, fun hok => ?_⟩
        rw [List.map_cons, List.map_cons, hslot]
        exact .cons (hr.2 rfl) (hrest.2 hok)
      | false => exact Returns.pure ⟨hr.1, fun hok => nomatch hok⟩
    · rw [if_neg hobject]
      have hslot : slotOf blank' fill' item = blank' := if_neg hobject
      refine ih.bind fun r hrest => Returns.pure ⟨hrest.1, fun hok => ?_⟩
      rw [List.map_cons, List.map_cons, hslot]
      exact .cons hblank (hrest.2 hok)

/-- The array of a member, or nothing. -/
def slotsOf {γ : Type} (blank : γ) (fill : Json → γ) (array : Option Json) : List γ :=
  match array with
  | some (.arr items) => fillSlots blank fill (.arr items)
  | _ => []

lemma loadArray_returns {full : Prop} {β γ : Type} {entry : β → γ} {R : γ → γ → Prop} {blank : β}
    {blank' : γ} {fill : Json → HeapM (β × Bool)} {fill' : Json → γ}
    (hblank : R (entry blank) blank')
    (hfill : ∀ j, Returns full (fill j) (fun r => Loaded full R (entry r.1) r.2 (fill' j)))
    (array : Option Json) :
    Returns full (loadArray blank fill array)
      (fun r => Loaded full (List.Forall₂ R) (r.2.1.map entry) r.2.2
        (slotsOf blank' fill' array)) := by
  unfold loadArray
  split
  · refine (Returns.alloc full).bind fun r hr => ?_
    cases r with
    | none => exact Returns.pure ⟨fun hfull => absurd hfull (hr rfl), fun hok => nomatch hok⟩
    | some b =>
      refine (fillCells_returns hblank hfill _).bind fun r hcells => Returns.pure ?_
      rw [slotsOf, fillSlots_arr]
      exact hcells
  · rename_i hother
    have hslots : slotsOf blank' fill' array = [] := by
      unfold slotsOf
      split
      · rename_i items
        cases items with
        | nil => rw [fillSlots_arr, List.map_nil]
        | cons item rest => exact absurd rfl (hother item rest)
      · rfl
    rw [hslots]
    exact Returns.pure ⟨fun _ => rfl, fun _ => .nil⟩

lemma loadReleaseCells_returns (full : Prop) (rj : Json) :
    Returns full (loadReleaseCells rj)
      (fun r => Loaded full (KeepsRelease full) r.1.entry r.2 (loadRelease rj)) := by
  have hblank : KeepsFile full FileCells.blank.entry .blank :=
    ⟨Or.inl rfl, Or.inl rfl, Or.inl rfl, Or.inl rfl⟩
  refine (dupString_returns full rj _).bind fun _ h₁ => ?_
  refine (dupString_returns full rj _).bind fun _ h₂ => ?_
  refine (dupString_returns full rj _).bind fun _ h₃ => ?_
  refine (dupString_returns full rj _).bind fun _ h₄ => ?_
  refine (loadArray_returns hblank (loadFileCells_returns full) _).bind fun r hfiles => ?_
  exact Returns.pure ⟨hfiles.1, fun hok => ⟨h₁, h₂, h₃, h₄, hfiles.2 hok⟩⟩

/-- `NULL` is returned for want of memory only, or where the plain loader also
fails. -/
def KeepsResult (full : Prop) : Option ManifestCells → Option Manifest → Prop
  | none, doc => full → doc = none
  | some m, doc => ∃ n, doc = some n ∧ KeepsManifest full m.entry n

lemma returns_free_null {full : Prop} {doc : Option Manifest} (p : Block)
    (h : full → doc = none) :
    Returns full (do free p; pure none) (fun r => KeepsResult full r doc) :=
  (Returns.free full p).bind fun _ _ => Returns.pure h

lemma manifestBuild_returns {full : Prop} (rootBlock : ℕ) (members : List (CStr × Json)) :
    Returns full (manifestBuild rootBlock (.obj members))
      (fun r => KeepsResult full r (some {
        manifestVersion := dupJsonString (.obj members) (text "manifest_version")
        created := dupJsonString (.obj members) (text "created")
        releases := slotsOf .blank loadRelease
          ((Json.obj members).getObjectItem (text "releases")) })) := by
  have hblank : KeepsRelease full ReleaseCells.blank.entry .blank :=
    ⟨Or.inl rfl, Or.inl rfl, Or.inl rfl, Or.inl rfl, .nil⟩
  unfold manifestBuild
  refine (Returns.alloc full).bind fun r hr => ?_
  cases r with
  | none => exact returns_free_null _ fun hfull => absurd hfull (hr rfl)
  | some block =>
    refine (dupString_returns full _ _).bind fun version h₁ => ?_
    refine (dupString_returns full _ _).bind fun created h₂ => ?_
    refine (loadArray_returns hblank (loadReleaseCells_returns full) _).bind fun r hreleases => ?_
    obtain ⟨releases, slots, ok⟩ := r
    cases ok with
    | true =>
      refine (Returns.free full _).bind fun _ _ => Returns.pure ?_
      exact ⟨_, rfl, h₁, h₂, hreleases.2 rfl⟩
    | false =>
      have hshort : ¬ full := fun hfull => nomatch hreleases.1 hfull
      refine (Returns.short hshort (manifestFree _)).bind fun _ _ => ?_
      exact returns_free_null _ fun hfull => absurd hfull hshort

lemma manifestText_returns (full : Prop) (cjson : CJson) (buf : ℕ) (data : Bytes) :
    Returns full (manifestText cjson buf data)
      (fun r => KeepsResult full r (manifestParse cjson data)) := by
  have hparse : Returns full (cjsonParse cjson (cstring data)) (fun r =>
      (r = none → full → cjson.parse (cstring data) = none) ∧
        ∀ b j, r = some (b, j) → cjson.parse (cstring data) = some j) := by
    unfold cjsonParse
    generalize cjson.parse (cstring data) = parsed
    cases parsed with
    | none => exact Returns.pure ⟨fun _ _ => rfl, fun _ _ h => nomatch h⟩
    | some j =>
      refine (Returns.alloc full).bind fun r hr => ?_
      cases r with
      | none =>
        exact Returns.pure ⟨fun _ hfull => absurd hfull (hr rfl), fun _ _ h => nomatch h⟩
      | some b =>
        refine Returns.pure ⟨fun h => (nomatch h), fun b' j' h => ?_⟩
        cases h
        rfl
  refine hparse.bind fun root hroot => ?_
  refine (Returns.free full (some buf)).bind fun _ _ => ?_
  cases root with
  | none =>
    refine Returns.pure fun hfull => ?_
    rw [manifestParse, hroot.1 rfl hfull]
  | some root =>
    obtain ⟨b, root⟩ := root
    have hdoc := hroot.2 b root rfl
    cases root with
    | obj members =>
      have hparsed : manifestParse cjson data = some {
          manifestVersion := dupJsonString (.obj members) (text "manifest_version")
          created := dupJsonString (.obj members) (text "created")
          releases := slotsOf .blank loadRelease
            ((Json.obj members).getObjectItem (text "releases")) } := by
        rw [manifestParse, hdoc]
        rfl
      rw [hparsed]
      exact manifestBuild_returns b members
    | null => exact returns_free_null _ fun _ => by rw [manifestParse, hdoc]
    | bool v => exact returns_free_null _ fun _ => by rw [manifestParse, hdoc]
    | num v => exact returns_free_null _ fun _ => by rw [manifestParse, hdoc]
    | str v => exact returns_free_null _ fun _ => by rw [manifestParse, hdoc]
    | arr v => exact returns_free_null _ fun _ => by rw [manifestParse, hdoc]

lemma readText_returns (full : Prop) (cjson : CJson) (fp : ℕ) {a : WholeAnswer} {src : Source}
    (hopen : ¬ (src = .missing ∨ a.fopen = false)) (hlength : (a.seekEnd && a.tell) = true) :
    Returns full (readText cjson fp a src.bytes)
      (fun r => KeepsResult full r (manifestLoad cjson a src)) := by
  have hload : manifestLoad cjson a src =
      if a.malloc then manifestParse cjson (src.bytes.take a.nread) else none := by
    rw [manifestLoad, if_neg hopen, hlength, Bool.true_and]
  have hbuf : Returns full (allocText a) (fun r =>
      (r = none → full → a.malloc = false) ∧ (r ≠ none → a.malloc = true)) := by
    unfold allocText
    split_ifs with hmalloc
    · exact (Returns.alloc full).mono fun _ hr =>
        ⟨fun hnone hfull => absurd hfull (hr hnone), fun _ => hmalloc⟩
    · exact Returns.pure ⟨fun _ _ => Bool.eq_false_iff.mpr hmalloc, fun h => absurd rfl h⟩
  refine hbuf.bind fun r hr => ?_
  cases r with
  | none =>
    refine returns_free_null _ fun hfull => ?_
    rw [hload, if_neg (Bool.eq_false_iff.mp (hr.1 rfl hfull))]
  | some buf =>
    rw [hload, if_pos (hr.2 (Option.some_ne_none buf))]
    exact (Returns.free full _).bind fun _ _ => manifestText_returns full cjson buf _

lemma manifestLoadCells_returns (full : Prop) (cjson : CJson) (a : WholeAnswer) (src : Source) :
    Returns full (manifestLoadCells cjson a src)
      (fun r => KeepsResult full r (manifestLoad cjson a src)) := by
  unfold manifestLoadCells
  by_cases hopen : src = .missing ∨ a.fopen = false
  · rw [if_pos hopen]
    exact Returns.pure fun _ => by rw [manifestLoad, if_pos hopen]
  · rw [if_neg hopen]
    refine (Returns.alloc full).bind fun r hr => ?_
    cases r with
    | none => exact Returns.pure fun hfull => absurd hfull (hr rfl)
    | some fp =>
      dsimp only
      split_ifs with hlength
      · exact readText_returns full cjson fp hopen hlength
      · refine returns_free_null _ fun _ => ?_
        rw [manifestLoad, if_neg hopen, if_neg]
        simp only [Bool.and_eq_true] at hlength ⊢
        exact fun h => hlength h.1

/-- A release that is found has its string in the document. -/
lemma find_keeps {full : Prop} {rs qs : List ManifestRelease} {id : CStr} {r : ManifestRelease}
    (h : List.Forall₂ (KeepsRelease full) rs qs)
    (hr : rs.find? (fun r => r.deviceId == some id) = some r) :
    ∃ q ∈ qs, KeepsRelease full r q ∧ q.deviceId = some id := by
  induction h with
  | nil => cases hr
  | @cons r' q' rs qs hhead _ ih =>
    rw [List.find?_cons] at hr
    split at hr
    · rename_i hid
      obtain rfl := Option.some.inj hr
      exact ⟨q', List.mem_cons_self, hhead, hhead.deviceId.of_some (beq_iff_eq.mp hid)⟩
    · obtain ⟨q, hq, hkeeps⟩ := ih hr
      exact ⟨q, List.mem_cons_of_mem q' hq, hkeeps⟩

lemma manifestSelectRelease_keeps {full : Prop} {m n : Manifest} (h : KeepsManifest full m n)
    {id : Option CStr} {r : ManifestRelease} (hr : manifestSelectRelease (some m) id = some r) :
    ∃ q ∈ n.releases, KeepsRelease full r q ∧
      (q.deviceId = id ∨ q.deviceId = some (text "default")) := by
  unfold manifestSelectRelease at hr
  dsimp only at hr
  by_cases hempty : m.releases = []
  · rw [if_pos hempty] at hr
    cases hr
  rw [if_neg hempty] at hr
  split at hr
  · rename_i exact hexact
    obtain rfl := Option.some.inj hr
    cases id with
    | none => cases hexact
    | some id =>
      dsimp only at hexact
      by_cases hid : id ≠ []
      · rw [if_pos hid] at hexact
        obtain ⟨q, hq, hkeeps, hdevice⟩ := find_keeps h.releases hexact
        exact ⟨q, hq, hkeeps, Or.inl hdevice⟩
      · rw [if_neg hid] at hexact
        cases hexact
  · obtain ⟨q, hq, hkeeps, hdevice⟩ := find_keeps h.releases hr
    exact ⟨q, hq, hkeeps, Or.inr hdevice⟩

/-- With memory for everything the loader computes what the plain one does. When
memory runs out it returns `NULL` or a manifest that is the document's except for
strings that are `NULL`, and the release it selects is one of the document for
this device or for `default`. -/
theorem manifestLoadCells_keeps (cjson : CJson) (a : WholeAnswer) (src : Source) (h : Heap) :
    (Ample h →
      ((manifestLoadCells cjson a src) h).1.map ManifestCells.entry = manifestLoad cjson a src) ∧
    ∀ m, ((manifestLoadCells cjson a src) h).1 = some m →
      ∃ doc, manifestLoad cjson a src = some doc ∧ KeepsManifest False m.entry doc ∧
        ∀ id r, manifestSelectRelease (some m.entry) id = some r →
          ∃ q ∈ doc.releases, KeepsRelease False r q ∧
            (q.deviceId = id ∨ q.deviceId = some (text "default")) := by
  constructor
  · intro hample
    obtain ⟨hkeeps, -⟩ := manifestLoadCells_returns True cjson a src h fun _ => hample
    generalize ((manifestLoadCells cjson a src) h).1 = result at hkeeps
    cases result with
    | none => exact (hkeeps trivial).symm
    | some m =>
      obtain ⟨doc, hdoc, hm⟩ := hkeeps
      rw [hdoc, Option.map_some, hm.eq trivial]
  · intro m hm
    obtain ⟨hkeeps, -⟩ := manifestLoadCells_returns False cjson a src h False.elim
    rw [hm] at hkeeps
    obtain ⟨doc, hdoc, hdocument⟩ := hkeeps
    exact ⟨doc, hdoc, hdocument, fun id r hr => manifestSelectRelease_keeps hdocument hr⟩

/-- A document of two releases, for one device and for `default`. -/
def twoReleases : List (CStr × Json) :=
  [(text "releases", .arr [
    .obj [(text "device_id", .str (text "gw"))],
    .obj [(text "device_id", .str (text "default"))]])]

-- The sixth allocation is the copy of the device's name. Without it the device is
-- given the release for `default`, although the document has one for it.
example :
    let heap : Heap := ⟨fun n => n != 5, 0, 0, false⟩
    let whole : WholeAnswer := ⟨true, true, true, true, true, 99, ⟨1, Nat.one_pos⟩⟩
    let m := ((manifestLoadCells (.ofObject twoReleases) whole
      (.file (Json.obj twoReleases).print)) heap).1
    (manifestSelectRelease (m.map ManifestCells.entry) (some (text "gw"))).bind
      ManifestRelease.deviceId = some (text "default") := by
  decide

end OtaFetch.ManifestMemory
