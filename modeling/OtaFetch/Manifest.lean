import OtaFetch.Stdio

/-!
# Manifest parsing and release selection

The JSON parser is a parameter that returns the parse tree. The two nested
loops of the loader fill zeroed arrays slot by slot and skip malformed elements
without compacting, so a slot keeps the position of its element. The numeric
`size` member is left out: nothing that fetches or installs reads it.
-/
namespace OtaFetch.Releases
open CPath Stdio

/-- The tree of a document. Names and strings are what cJSON keeps of them, C strings
that end at the first NUL. -/
inductive Json where
  | null
  | bool (b : Bool)
  | num (literal : CStr)
  | str (s : CStr)
  | arr (items : List Json)
  | obj (members : List (CStr × Json))

namespace Json

def isObject : Json → Bool
  | .obj _ => true
  | _ => false

/-- `cJSON_GetObjectItemCaseSensitive`: the first member with the name. -/
def getObjectItem (j : Json) (key : CStr) : Option Json :=
  match j with
  | .obj members => (members.find? (fun m => m.1 == key)).map Prod.snd
  | _ => none

def getArraySize : Json → ℕ
  | .arr items => items.length
  | _ => 0

def getArrayItem (j : Json) (i : ℕ) : Option Json :=
  match j with
  | .arr items => items[i]?
  | _ => none

end Json

/-- `cJSON_Parse` on a C string. The empty string is malformed. Text after the first
complete value is ignored, so an object that is complete in a string is what any longer
string that starts with it parses to. -/
structure CJson where
  parse : CStr → Option Json
  parse_nil : parse [] = none
  parse_append : ∀ s t members, parse s = some (.obj members) →
    parse (s ++ t) = some (.obj members)

structure ManifestFile where
  fileType : Option CStr
  filename : Option CStr
  sha256 : Option CStr
  path : Option CStr
  deriving Repr, DecidableEq

structure ManifestRelease where
  deviceId : Option CStr
  releaseName : Option CStr
  releaseVersion : Option CStr
  created : Option CStr
  files : List ManifestFile
  deriving Repr, DecidableEq

structure Manifest where
  manifestVersion : Option CStr
  created : Option CStr
  releases : List ManifestRelease
  deriving Repr, DecidableEq

/-- A zeroed file entry. -/
def ManifestFile.blank : ManifestFile := ⟨none, none, none, none⟩

/-- A zeroed release entry. -/
def ManifestRelease.blank : ManifestRelease := ⟨none, none, none, none, []⟩

/-- `strdup` of a string of the tree, which is a C string already. -/
def dupJsonString (obj : Json) (key : CStr) : Option CStr :=
  match obj.getObjectItem key with
  | some (.str s) => some s
  | _ => none

/-- Zero as many slots as the array has elements, then visit the elements in
order and fill the slot of each one that is an object. -/
def fillSlots {β : Type} (blank : β) (fill : Json → β) (array : Json) : List β :=
  (List.range array.getArraySize).foldl
    (fun slots i =>
      match array.getArrayItem i with
      | some item => if item.isObject then slots.set i (fill item) else slots
      | none => slots)
    (List.replicate array.getArraySize blank)

def loadFile (fj : Json) : ManifestFile where
  fileType := dupJsonString fj (text "file_type")
  filename := dupJsonString fj (text "filename")
  sha256 := dupJsonString fj (text "sha256")
  path := dupJsonString fj (text "path")

def loadRelease (rj : Json) : ManifestRelease where
  deviceId := dupJsonString rj (text "device_id")
  releaseName := dupJsonString rj (text "release_name")
  releaseVersion := dupJsonString rj (text "release_version")
  created := dupJsonString rj (text "created")
  files :=
    match rj.getObjectItem (text "files") with
    | some (.arr items) => fillSlots .blank loadFile (.arr items)
    | _ => []

/-- The part of `manifest_load` after the file has been read into `data`. -/
def manifestParse (cjson : CJson) (data : Bytes) : Option Manifest :=
  match cjson.parse (cstring data) with
  | some (.obj members) =>
    let root := Json.obj members
    some {
      manifestVersion := dupJsonString root (text "manifest_version")
      created := dupJsonString root (text "created")
      releases :=
        match root.getObjectItem (text "releases") with
        | some (.arr items) => fillSlots .blank loadRelease (.arr items)
        | _ => [] }
  | _ => none

/-- A short `fread` is not noticed: the bytes that came are parsed. -/
def manifestLoad (cjson : CJson) (a : WholeAnswer) (src : Source) : Option Manifest :=
  if src = .missing ∨ a.fopen = false then none
  else if a.seekEnd && a.tell && a.malloc then manifestParse cjson (src.bytes.take a.nread)
  else none

/-- No text is no document. -/
lemma manifestParse_nil (cjson : CJson) : manifestParse cjson [] = none := by
  rw [manifestParse, show cstring [] = [] from rfl, cjson.parse_nil]

def manifestSelectRelease (m : Option Manifest) (deviceId : Option CStr) :
    Option ManifestRelease :=
  match m with
  | none => none
  | some m =>
    if m.releases = [] then none
    else
      let exact :=
        match deviceId with
        | some id => if id ≠ [] then m.releases.find? (fun r => r.deviceId == some id) else none
        | none => none
      match exact with
      | some r => some r
      | none => m.releases.find? (fun r => r.deviceId == some (text "default"))

/-- What the slot of an element holds. -/
def slotOf {β : Type} (blank : β) (fill : Json → β) (item : Json) : β :=
  if item.isObject then fill item else blank

lemma fill_range {β : Type} (blank : β) (fill : Json → β) (items : List Json) (n : ℕ)
    (hn : n ≤ items.length) :
    (List.range n).foldl
      (fun slots i =>
        match (Json.arr items).getArrayItem i with
        | some item => if item.isObject then slots.set i (fill item) else slots
        | none => slots)
      (List.replicate items.length blank) =
    (items.take n).map (slotOf blank fill) ++ List.replicate (items.length - n) blank := by
  induction n with
  | zero => simp
  | succ n ih =>
    have hlt : n < items.length := hn
    have hget : (Json.arr items).getArrayItem n = some items[n] := by
      simp [Json.getArrayItem, hlt]
    have hrest : List.replicate (items.length - n) blank =
        blank :: List.replicate (items.length - (n + 1)) blank := by
      rw [← List.replicate_succ]
      congr 1
      omega
    have hlen : ((items.take n).map (slotOf blank fill)).length = n := by
      rw [List.length_map, List.length_take]
      omega
    rw [List.range_succ, List.foldl_append, ih (by omega), List.foldl_cons, List.foldl_nil, hget,
      hrest, List.take_succ_eq_append_getElem hlt, List.map_append]
    dsimp only
    split_ifs with ho
    · rw [List.set_append_right _ _ (by omega), hlen]
      simp [slotOf, ho]
    · simp [slotOf, ho]

/-- The loop with its skips fills the slots as if by mapping: nothing shifts. -/
theorem fillSlots_arr {β : Type} (blank : β) (fill : Json → β) (items : List Json) :
    fillSlots blank fill (.arr items) = items.map (slotOf blank fill) := by
  have h := fill_range blank fill items items.length le_rfl
  simpa [fillSlots, Json.getArraySize] using h

/-- The value is the first member of the object under the given name. -/
def FirstMember (j : Json) (key : CStr) (v : Json) : Prop :=
  ∃ front back, j = .obj (front ++ (key, v) :: back) ∧ ∀ m ∈ front, m.1 ≠ key

theorem getObjectItem_eq_some (j : Json) (key : CStr) (v : Json) :
    j.getObjectItem key = some v ↔ FirstMember j key v := by
  cases j with
  | obj members =>
    simp only [Json.getObjectItem, Option.map_eq_some_iff, List.find?_eq_some_iff_append]
    constructor
    · rintro ⟨⟨k, u⟩, ⟨hk, front, back, rfl, hfront⟩, rfl⟩
      obtain rfl : k = key := by simpa using hk
      exact ⟨front, back, rfl, fun m hm => by simpa using hfront m hm⟩
    · rintro ⟨front, back, hj, hfront⟩
      injection hj with hj
      subst hj
      exact ⟨(key, v), ⟨by simp, front, back, rfl, fun m hm => by simpa using hfront m hm⟩, rfl⟩
  | null => simp [Json.getObjectItem, FirstMember]
  | bool b => simp [Json.getObjectItem, FirstMember]
  | num l => simp [Json.getObjectItem, FirstMember]
  | str s => simp [Json.getObjectItem, FirstMember]
  | arr items => simp [Json.getObjectItem, FirstMember]

theorem FirstMember.isObject {j : Json} {key : CStr} {v : Json} (h : FirstMember j key v) :
    j.isObject = true := by
  obtain ⟨front, back, rfl, -⟩ := h
  rfl

theorem dupJsonString_eq_some (j : Json) (key s : CStr) :
    dupJsonString j key = some s ↔ FirstMember j key (.str s) := by
  rw [← getObjectItem_eq_some]
  unfold dupJsonString
  split
  · rename_i u h
    simp [h]
  · rename_i h
    simp only [reduceCtorEq, false_iff]
    exact h s

/-- The entry has the string members of the element and `NULL` for the rest. -/
structure DenotesFile (f : Json) (entry : ManifestFile) : Prop where
  fileType : ∀ s, entry.fileType = some s ↔ FirstMember f (text "file_type") (.str s)
  filename : ∀ s, entry.filename = some s ↔ FirstMember f (text "filename") (.str s)
  sha256 : ∀ s, entry.sha256 = some s ↔ FirstMember f (text "sha256") (.str s)
  path : ∀ s, entry.path = some s ↔ FirstMember f (text "path") (.str s)

/-- The entry has the identity of the element, and its files are those of the
element's `files` array, position by position. -/
structure DenotesRelease (e : Json) (r : ManifestRelease) : Prop where
  deviceId : ∀ s, r.deviceId = some s ↔ FirstMember e (text "device_id") (.str s)
  files : ∀ items, FirstMember e (text "files") (.arr items) →
    List.Forall₂ DenotesFile items r.files
  no_files : (∀ items, ¬ FirstMember e (text "files") (.arr items)) → r.files = []

lemma not_firstMember {j : Json} (h : ¬ j.isObject = true) (key : CStr) (v : Json) :
    ¬ FirstMember j key v := fun hm => h hm.isObject

theorem slot_denotesFile (f : Json) : DenotesFile f (slotOf .blank loadFile f) := by
  unfold slotOf
  split_ifs with ho
  · exact ⟨dupJsonString_eq_some f _, dupJsonString_eq_some f _, dupJsonString_eq_some f _,
      dupJsonString_eq_some f _⟩
  · constructor <;> intro s <;> simp [ManifestFile.blank, not_firstMember ho]

lemma forall₂_slots {β : Type} {D : Json → β → Prop} {blank : β} {fill : Json → β}
    (h : ∀ e, D e (slotOf blank fill e)) (items : List Json) :
    List.Forall₂ D items (items.map (slotOf blank fill)) := by
  rw [List.forall₂_map_right_iff]
  exact List.forall₂_same.mpr (fun e _ => h e)

theorem slot_denotesRelease (e : Json) : DenotesRelease e (slotOf .blank loadRelease e) := by
  unfold slotOf
  split_ifs with ho
  · refine ⟨dupJsonString_eq_some e _, ?_, ?_⟩
    · intro items h
      rw [← getObjectItem_eq_some] at h
      simp only [loadRelease, h, fillSlots_arr]
      exact forall₂_slots slot_denotesFile items
    · intro h
      unfold loadRelease
      dsimp only
      split
      · rename_i items hi
        exact absurd ((getObjectItem_eq_some e _ _).mp hi) (h items)
      · rfl
  · constructor
    · simp [ManifestRelease.blank, not_firstMember ho]
    · intro items h
      exact absurd h (not_firstMember ho _ _)
    · intro _
      rfl

/-- The document parses to an object whose `releases` is this array. -/
def ReleasesOf (cjson : CJson) (doc : Bytes) (items : List Json) : Prop :=
  ∃ root, cjson.parse (cstring doc) = some root ∧
    FirstMember root (text "releases") (.arr items)

theorem manifestParse_releases {cjson : CJson} {doc : Bytes} {items : List Json}
    (h : ReleasesOf cjson doc items) :
    ∃ m, manifestParse cjson doc = some m ∧ m.releases = items.map (slotOf .blank loadRelease) := by
  obtain ⟨root, hroot, hmem⟩ := h
  obtain ⟨front, back, rfl, hfront⟩ := id hmem
  rw [← getObjectItem_eq_some] at hmem
  simp only [manifestParse, hroot, hmem, fillSlots_arr]
  exact ⟨_, rfl, rfl⟩

lemma manifestParse_no_releases {cjson : CJson} {doc : Bytes}
    (h : ∀ items, ¬ ReleasesOf cjson doc items) (m : Manifest)
    (hm : manifestParse cjson doc = some m) : m.releases = [] := by
  unfold manifestParse at hm
  split at hm
  · rename_i members hp
    obtain rfl := Option.some.inj hm
    dsimp only
    split
    · rename_i items hi
      exact absurd ⟨_, hp, (getObjectItem_eq_some _ _ _).mp hi⟩ (h items)
    · rfl
  · cases hm

/-- `e` is the first element of `xs` with the property, at position `k`. -/
def IsFirst {α : Type} (p : α → Prop) (xs : List α) (k : ℕ) (e : α) : Prop :=
  xs[k]? = some e ∧ p e ∧ ∀ j < k, ∀ e', xs[j]? = some e' → ¬ p e'

/-- The element is an object whose `device_id` is the given string. -/
def NamesDevice (id : CStr) (e : Json) : Prop := FirstMember e (text "device_id") (.str id)

lemma findDevice_first {id : CStr} {items : List Json} {k : ℕ} {e : Json}
    (h : IsFirst (NamesDevice id) items k e) :
    (items.map (slotOf .blank loadRelease)).find? (fun r => r.deviceId == some id) =
      some (slotOf .blank loadRelease e) := by
  rw [List.find?_eq_some_iff_getElem]
  obtain ⟨hk, hp, hbefore⟩ := h
  obtain ⟨hlt, rfl⟩ := List.getElem?_eq_some_iff.mp hk
  refine ⟨?_, k, by simpa using hlt, by simp, ?_⟩
  · rw [beq_iff_eq, (slot_denotesRelease _).deviceId]
    exact hp
  · intro j hj
    have hj' : j < items.length := by omega
    have hn := hbefore j hj items[j] (List.getElem?_eq_getElem hj')
    rw [NamesDevice, ← (slot_denotesRelease _).deviceId] at hn
    simpa using hn

lemma findDevice_none {id : CStr} {items : List Json}
    (h : ∀ e ∈ items, ¬ NamesDevice id e) :
    (items.map (slotOf .blank loadRelease)).find? (fun r => r.deviceId == some id) = none := by
  rw [List.find?_eq_none]
  intro r hr
  obtain ⟨e, he, rfl⟩ := List.mem_map.mp hr
  rw [beq_iff_eq, (slot_denotesRelease _).deviceId]
  exact h e he

lemma select_exact {m : Manifest} {items : List Json} {id : CStr} {k : ℕ} {e : Json}
    (hm : m.releases = items.map (slotOf .blank loadRelease)) (hid : id ≠ [])
    (h : IsFirst (NamesDevice id) items k e) :
    manifestSelectRelease (some m) (some id) = some (slotOf .blank loadRelease e) := by
  have hf := findDevice_first h
  rw [← hm] at hf
  have hne : m.releases ≠ [] := by
    intro hnil
    rw [hnil] at hf
    cases hf
  simp [manifestSelectRelease, hne, hid, hf]

/-- When the device is not named, selection is the search for the default. -/
lemma select_default {m : Manifest} {items : List Json} {id : Option CStr}
    (hm : m.releases = items.map (slotOf .blank loadRelease))
    (hno : ∀ i, id = some i → i ≠ [] → ∀ e ∈ items, ¬ NamesDevice i e) :
    manifestSelectRelease (some m) id =
      m.releases.find? (fun r => r.deviceId == some (text "default")) := by
  have hexact : (match id with
      | some i => if i ≠ [] then m.releases.find? (fun r => r.deviceId == some i) else none
      | none => none) = none := by
    cases id with
    | none => rfl
    | some i =>
      dsimp only
      split_ifs with hi
      · rw [hm]
        exact findDevice_none (hno i rfl hi)
      · rfl
  simp only [manifestSelectRelease, hexact]
  split_ifs with hnil
  · rw [hnil]
    rfl
  · rfl

/-- The whole document arrives when the manifest is read. -/
def ReadWhole (a : WholeAnswer) (doc : Bytes) : Prop :=
  a.fopen = true ∧ a.seekEnd = true ∧ a.tell = true ∧ a.malloc = true ∧ doc.length ≤ a.nread

lemma manifestLoad_whole {cjson : CJson} {a : WholeAnswer} {doc : Bytes} (ha : ReadWhole a doc) :
    manifestLoad cjson a (.file doc) = manifestParse cjson doc := by
  obtain ⟨ho, hs, ht, hm, hn⟩ := ha
  simp [manifestLoad, Source.bytes, ho, hs, ht, hm, List.take_of_length_le hn]

/-- A manifest that was loaded, perhaps from the first bytes of the document
only, is what the whole document parses to. -/
lemma manifestLoad_some {cjson : CJson} {a : WholeAnswer} {src : Source} {m : Manifest}
    (h : manifestLoad cjson a src = some m) :
    ∃ doc, src = .file doc ∧ manifestParse cjson doc = some m := by
  unfold manifestLoad at h
  split_ifs at h with hopen hread
  cases src with
  | missing => exact absurd (Or.inl rfl) hopen
  | directory =>
    have hnone : manifestParse cjson (([] : Bytes).take a.nread) = none := by
      rw [List.take_nil, manifestParse_nil]
    exact absurd (hnone.symm.trans h) (Option.some_ne_none m).symm
  | file doc =>
    refine ⟨doc, rfl, ?_⟩
    unfold Source.bytes at h
    unfold manifestParse at h ⊢
    split at h
    · rename_i members hp
      obtain ⟨rest, hrest⟩ := cstring_append_prefix (doc.take a.nread) (doc.drop a.nread)
      rw [List.take_append_drop] at hrest
      rw [← hrest, cjson.parse_append _ rest members hp]
      exact h
    · cases h

/-- Release selection end to end: what is loaded mirrors the `releases` array
slot by slot, and what is selected is the slot of the first element that names
the device, else of the first that names the default, else nothing. -/
theorem manifestSelectRelease_document (cjson : CJson) (a : WholeAnswer) (doc : Bytes)
    (id : Option CStr) (ha : ReadWhole a doc) :
    (∀ items, ReleasesOf cjson doc items →
      ∃ m, manifestLoad cjson a (.file doc) = some m ∧
        List.Forall₂ DenotesRelease items m.releases ∧
        (∀ i k e, id = some i → i ≠ [] → IsFirst (NamesDevice i) items k e →
          ∃ r, m.releases[k]? = some r ∧
            manifestSelectRelease (manifestLoad cjson a (.file doc)) id = some r) ∧
        ((∀ i, id = some i → i ≠ [] → ∀ e ∈ items, ¬ NamesDevice i e) →
          (∀ k e, IsFirst (NamesDevice (text "default")) items k e →
            ∃ r, m.releases[k]? = some r ∧
              manifestSelectRelease (manifestLoad cjson a (.file doc)) id = some r) ∧
          ((∀ e ∈ items, ¬ NamesDevice (text "default") e) →
            manifestSelectRelease (manifestLoad cjson a (.file doc)) id = none))) ∧
    ((∀ items, ¬ ReleasesOf cjson doc items) →
      manifestSelectRelease (manifestLoad cjson a (.file doc)) id = none) := by
  rw [manifestLoad_whole ha]
  refine ⟨?_, ?_⟩
  · intro items hitems
    obtain ⟨m, hload, hm⟩ := manifestParse_releases hitems
    have hslot : ∀ {k : ℕ} {e : Json}, items[k]? = some e →
        m.releases[k]? = some (slotOf .blank loadRelease e) := by
      intro k e hk
      rw [hm, List.getElem?_map, hk]
      rfl
    rw [hload]
    refine ⟨m, rfl, ?_, ?_, ?_⟩
    · rw [hm]
      exact forall₂_slots slot_denotesRelease items
    · rintro i k e rfl hi h
      exact ⟨_, hslot h.1, select_exact hm hi h⟩
    · intro hno
      rw [select_default hm hno, hm]
      refine ⟨?_, ?_⟩
      · intro k e h
        rw [← hm]
        exact ⟨_, hslot h.1, by rw [hm]; exact findDevice_first h⟩
      · exact findDevice_none
  · intro hno
    cases hload : manifestParse cjson doc with
    | none => rfl
    | some m =>
      have hm := manifestParse_no_releases hno m hload
      simp [manifestSelectRelease, hm]

/-- A string between its quotes. Only strings that need no escapes are printed. -/
def quoted (s : CStr) : CStr := 34 :: (s ++ [34])

mutual
/-- The text of a document, without white space. -/
def Json.print : Json → CStr
  | .null => text "null"
  | .bool b => if b then text "true" else text "false"
  | .num literal => literal
  | .str s => quoted s
  | .arr items => 91 :: (printItems items ++ [93])
  | .obj members => 123 :: (printMembers members ++ [125])

def Json.printItems : List Json → CStr
  | [] => []
  | [j] => j.print
  | j :: items => j.print ++ 44 :: printItems items

def Json.printMembers : List (CStr × Json) → CStr
  | [] => []
  | [(key, j)] => quoted key ++ 58 :: j.print
  | (key, j) :: members => quoted key ++ 58 :: (j.print ++ 44 :: printMembers members)
end

/-- What `buffer_skip_whitespace` leaves of a text. -/
def skipWhitespace (s : CStr) : CStr := s.dropWhile fun b => decide (b ≤ 32)

lemma skipWhitespace_append {s : CStr} (t : CStr) (h : skipWhitespace s ≠ []) :
    skipWhitespace (s ++ t) = skipWhitespace s ++ t := by
  unfold skipWhitespace at h ⊢
  rw [List.dropWhile_append, if_neg (by simpa using h)]

/-- Each document has a text, and none is the beginning of another. -/
def Distinct (docs : List Json) : Prop :=
  (∀ j ∈ docs, j.print ≠ []) ∧
    docs.Pairwise fun a b => ¬ a.print <+: b.print ∧ ¬ b.print <+: a.print

instance (docs : List Json) : Decidable (Distinct docs) :=
  inferInstanceAs (Decidable (_ ∧ docs.Pairwise _))

/-- The text starts with the document. -/
def startsWith (s : CStr) (j : Json) : Bool := j.print.isPrefixOf (skipWhitespace s)

lemma startsWith_iff {s : CStr} {j : Json} :
    startsWith s j = true ↔ j.print <+: skipWhitespace s := List.isPrefixOf_iff_prefix

/-- White space before a document is skipped, and what follows it does not matter. -/
lemma startsWith_append {s : CStr} {j : Json} (t : CStr) (h : startsWith s j = true) :
    startsWith (s ++ t) j = true := by
  rw [startsWith_iff] at h ⊢
  by_cases hs : skipWhitespace s = []
  · rw [hs, List.prefix_nil] at h
    rw [h]
    exact List.nil_prefix
  · rw [skipWhitespace_append t hs]
    exact h.trans (List.prefix_append _ _)

/-- A parser that knows these documents and takes everything else for malformed. -/
def CJson.ofDocuments (docs : List Json) (hdocs : Distinct docs) : CJson where
  parse s := docs.find? (startsWith s)
  parse_nil := by
    rw [List.find?_eq_none]
    intro j hj hstarts
    rw [startsWith_iff] at hstarts
    exact hdocs.1 j hj (List.prefix_nil.mp hstarts)
  parse_append := by
    intro s t members h
    obtain ⟨hj, as, bs, rfl, has⟩ := List.find?_eq_some_iff_append.mp h
    have hlonger := startsWith_append t hj
    refine List.find?_eq_some_iff_append.mpr ⟨hlonger, as, bs, rfl, ?_⟩
    intro a ha
    -- two documents that one text starts with are the beginning of one another
    by_contra hstarts
    rw [Bool.not_eq_true', Bool.not_eq_false, startsWith_iff] at hstarts
    rw [startsWith_iff] at hlonger
    have hpair := (List.pairwise_append.mp hdocs.2).2.2 a ha _ List.mem_cons_self
    rcases List.prefix_or_prefix_of_prefix hstarts hlonger with hpre | hpre
    · exact hpair.1 hpre
    · exact hpair.2 hpre

/-- A parser that knows one document, an object. -/
def CJson.ofObject (members : List (CStr × Json)) : CJson :=
  .ofDocuments [.obj members] ⟨by simp [Json.print], List.pairwise_singleton _ _⟩

/-- A parser that knows no document. -/
def CJson.empty : CJson := .ofDocuments [] ⟨by simp, .nil⟩

/-- A malformed element, the fallback, and the device's own release. -/
def fleetReleases : List Json :=
  [.num (text "7"), .obj [(text "device_id", .str (text "default"))],
    .obj [(text "device_id", .str (text "cam")), (text "files", .arr [.null])]]

def fleetMembers : List (CStr × Json) := [(text "releases", .arr fleetReleases)]

def fleetTree : Json := .obj fleetMembers

/-- The file is read whole. -/
def fleetRead : WholeAnswer :=
  ⟨true, true, true, true, true, fleetTree.print.length, ⟨1, Nat.one_pos⟩⟩

theorem manifestSelectRelease_document_fleet :
    ReadWhole fleetRead fleetTree.print ∧
      ∃ m r, manifestLoad (.ofObject fleetMembers) fleetRead (.file fleetTree.print) = some m ∧
        m.releases[2]? = some r ∧
        manifestSelectRelease (some m) (some (text "cam")) = some r := by
  have ha : ReadWhole fleetRead fleetTree.print := by
    refine ⟨rfl, rfl, rfl, rfl, ?_⟩
    decide
  have hitems : ReleasesOf (.ofObject fleetMembers) fleetTree.print fleetReleases :=
    ⟨fleetTree, rfl, [], [], rfl, by simp⟩
  obtain ⟨m, hm, -, hexact, -⟩ := (manifestSelectRelease_document
    (.ofObject fleetMembers) _ _ (some (text "cam")) ha).1 _ hitems
  have hfirst : IsFirst (NamesDevice (text "cam")) fleetReleases 2 fleetReleases[2] := by
    refine ⟨rfl, ⟨[], _, rfl, by simp⟩, ?_⟩
    intro j hj e he hn
    have hd : dupJsonString e (text "device_id") = some (text "cam") :=
      (dupJsonString_eq_some e _ _).mpr hn
    interval_cases j <;> cases he <;> exact absurd hd (by decide)
  obtain ⟨r, hr, hsel⟩ := hexact _ 2 _ rfl (by decide) hfirst
  rw [hm] at hsel
  exact ⟨ha, m, r, hm, hr, hsel⟩

end OtaFetch.Releases
