import OtaFetch.Machine

/-!
# The token buffer

`read_token_file` at the level of its buffer: a block of cells that is grown by
doubling, filled byte by byte, trimmed by two loops, moved to the front and
terminated. Every access is checked against the size of the block. The string
that is handed out ends at the first NUL, and a token file may contain NULs.
-/
namespace OtaFetch.Token
open CPath Stdio Identity

/-- Why no token is handed out. The last one never happens. -/
inductive Stop where
  | fopen | memory | read | empty | outOfBounds
  deriving Repr, DecidableEq

def peek (cells : Bytes) (i : ℕ) : Except Stop UInt8 :=
  match cells[i]? with
  | some b => .ok b
  | none => .error .outOfBounds

def poke (cells : Bytes) (i : ℕ) (b : UInt8) : Except Stop Bytes :=
  if i < cells.length then .ok (cells.set i b) else .error .outOfBounds

/-- `memmove(buf, buf + start, n)`. -/
def moveDown (cells : Bytes) (start n : ℕ) : Except Stop Bytes :=
  if start + n ≤ cells.length then .ok ((cells.drop start).take n ++ cells.drop n)
  else .error .outOfBounds

/-- `realloc`: cells are kept as far as they fit, new ones hold anything. -/
def resize (junk : ℕ → UInt8) (cells : Bytes) (n : ℕ) : Bytes :=
  (cells ++ (List.range n).map junk).take n

/-- Whether `realloc` succeeds; it never does beyond the size of an object. -/
def grants (a : TokenAnswer) (n : ℕ) : Bool := decide (n ≤ ptrdiffMax) && a.realloc n

/-- The block, as long as its capacity, and the bytes of it in use. -/
structure Block where
  cells : Bytes
  len : ℕ
  deriving Repr, DecidableEq

/-- `if (len + 1 >= cap)`: the doubling is done in `size_t`. -/
def growBlock (a : TokenAnswer) (junk : ℕ → UInt8) (b : Block) : Except Stop Bytes :=
  if b.cells.length ≤ b.len + 1 then
    let newCap := b.cells.length * 2 % 2 ^ 64
    if grants a newCap then .ok (resize junk b.cells newCap) else .error .memory
  else .ok b.cells

def fillLoop (a : TokenAnswer) (junk : ℕ → UInt8) : Bytes → Block → Except Stop Block
  | [], b => .ok b
  | c :: cs, b => do
    let cells ← growBlock a junk b
    let cells ← poke cells b.len c
    fillLoop a junk cs ⟨cells, b.len + 1⟩

/-- `while (len > 0 && isspace(buf[len - 1])) len--;` -/
def trimEnd (cells : Bytes) : ℕ → Except Stop ℕ
  | 0 => .ok 0
  | n + 1 => do
    if isspace (← peek cells n) then trimEnd cells n else .ok (n + 1)

/-- `while (start < len && isspace(buf[start])) start++;`, at most `len` times. -/
def skipStart (cells : Bytes) (len : ℕ) : ℕ → ℕ → Except Stop ℕ
  | 0, start => .ok start
  | k + 1, start =>
    if start < len then do
      if isspace (← peek cells start) then skipStart cells len k (start + 1) else .ok start
    else .ok start

/-- The three cases on `start` and `len`. -/
def placeToken (cells : Bytes) (len start : ℕ) : Except Stop Block :=
  if 0 < start ∧ start < len then do
    let cells ← moveDown cells start (len - start)
    .ok ⟨cells, len - start⟩
  else if len ≤ start then .ok ⟨cells, 0⟩
  else .ok ⟨cells, len⟩

/-- `buf[len] = '\0'`, and an empty token is an error. -/
def closeToken (b : Block) : Except Stop CStr := do
  let cells ← poke b.cells b.len 0
  if b.len = 0 then .error .empty else .ok (cstring cells)

/-- `read_token_file`; the token is the C string at the start of the block. -/
def readTokenCells (a : TokenAnswer) (junk : ℕ → UInt8) (src : Source) : Except Stop CStr :=
  if src = .missing ∨ a.fopen = false then .error .fopen
  else if a.malloc = false then .error .memory
  else
    match src with
    | .file data => do
      let b ← fillLoop a junk (data.take (a.readError.getD data.length))
        ⟨(List.range 256).map junk, 0⟩
      if a.readError.isSome then .error .read
      else do
        let len ← trimEnd b.cells b.len
        let start ← skipStart b.cells len len 0
        let b ← placeToken b.cells len start
        closeToken b
    | _ => .error .read

@[simp] lemma ok_bind {α β : Type} (x : α) (f : α → Except Stop β) :
    ((.ok x : Except Stop α) >>= f) = f x := rfl

lemma peek_append (data rest : Bytes) (x : UInt8) :
    peek (data ++ x :: rest) data.length = .ok x := by
  simp [peek]

lemma poke_append (data rest : Bytes) (x c : UInt8) :
    poke (data ++ x :: rest) data.length c = .ok (data ++ c :: rest) := by
  rw [poke, if_pos (by simp)]
  simp

lemma resize_append {junk : ℕ → UInt8} {cells : Bytes} {n : ℕ} (h : cells.length ≤ n) :
    resize junk cells n = cells ++ ((List.range n).map junk).take (n - cells.length) := by
  rw [resize, List.take_append, List.take_of_length_le h]

/-- The bytes in use are `data`, and there is room for at least one more. -/
structure Block.Stores (b : Block) (data : Bytes) : Prop where
  len : b.len = data.length
  cells : ∃ x rest, b.cells = data ++ x :: rest
  bound : b.cells.length ≤ ptrdiffMax

lemma cells_length {b : Block} {data rest : Bytes} {x : UInt8}
    (h : b.cells = data ++ x :: rest) : b.cells.length = data.length + 1 + rest.length := by
  rw [h, List.length_append, List.length_cons]
  omega

/-- Doubling a full block leaves the data in place, with room for two bytes. -/
lemma resize_full {b : Block} {data : Bytes} (h : b.Stores data)
    (hfull : b.cells.length ≤ data.length + 1) (junk : ℕ → UInt8) :
    ∃ x y rest, resize junk b.cells (b.cells.length * 2) = data ++ x :: y :: rest := by
  obtain ⟨-, ⟨x, rest, hcells⟩, -⟩ := h
  have hlength := cells_length hcells
  obtain rfl : rest = [] := List.length_eq_zero_iff.mp (by omega)
  have hroom : 0 < (((List.range (b.cells.length * 2)).map junk).take
      (b.cells.length * 2 - b.cells.length)).length := by
    rw [List.length_take, List.length_map, List.length_range]
    omega
  obtain ⟨y, ys, hys⟩ := List.exists_cons_of_length_pos hroom
  refine ⟨x, y, ys, ?_⟩
  rw [resize_append (by omega), hys, hcells, List.append_assoc]
  rfl

/-- A full block is doubled if memory is there; the doubling does not wrap. -/
lemma growBlock_full {b : Block} {data : Bytes} (h : b.Stores data)
    (hfull : b.cells.length ≤ data.length + 1) (a : TokenAnswer) (junk : ℕ → UInt8) :
    growBlock a junk b = if grants a (b.cells.length * 2) then
      .ok (resize junk b.cells (b.cells.length * 2)) else .error .memory := by
  have hwrap : b.cells.length * 2 % 2 ^ 64 = b.cells.length * 2 := by
    have hbound := h.bound
    rw [ptrdiffMax] at hbound
    omega
  unfold growBlock
  rw [h.len, if_pos hfull]
  dsimp only
  rw [hwrap]

/-- Then there is room for a byte and a NUL, or memory has run out. -/
lemma growBlock_spec (a : TokenAnswer) (junk : ℕ → UInt8) {b : Block} {data : Bytes}
    (h : b.Stores data) :
    (b.cells.length ≤ data.length + 1 ∧ grants a (b.cells.length * 2) = false ∧
      growBlock a junk b = .error .memory) ∨
    ∃ x y rest, growBlock a junk b = .ok (data ++ x :: y :: rest) ∧
      (data ++ x :: y :: rest).length ≤ ptrdiffMax ∧
      ((b.cells.length ≤ data.length + 1 ∧ grants a (b.cells.length * 2) = true ∧
          (data ++ x :: y :: rest).length = b.cells.length * 2) ∨
        (¬ b.cells.length ≤ data.length + 1 ∧
          (data ++ x :: y :: rest).length = b.cells.length)) := by
  by_cases hfull : b.cells.length ≤ data.length + 1
  · have hgrow := growBlock_full h hfull a junk
    cases hgrant : grants a (b.cells.length * 2) with
    | false =>
      rw [hgrant] at hgrow
      exact .inl ⟨hfull, rfl, hgrow⟩
    | true =>
      right
      obtain ⟨x, y, rest, hnew⟩ := resize_full h hfull junk
      have hsize : (data ++ x :: y :: rest).length = b.cells.length * 2 := by
        rw [← hnew, resize, List.length_take, List.length_append, List.length_map,
          List.length_range]
        omega
      have hlimit : b.cells.length * 2 ≤ ptrdiffMax := by
        simp only [grants, Bool.and_eq_true, decide_eq_true_eq] at hgrant
        exact hgrant.1
      rw [hgrant, hnew] at hgrow
      exact ⟨x, y, rest, hgrow, hsize.le.trans hlimit, .inl ⟨hfull, rfl, hsize⟩⟩
  · right
    obtain ⟨hlen, ⟨x, rest, hcells⟩, hbound⟩ := h
    have hlength := cells_length hcells
    obtain ⟨y, ys, rfl⟩ := List.exists_cons_of_length_pos (show 0 < rest.length by omega)
    refine ⟨x, y, ys, ?_, hcells ▸ hbound, .inr ⟨hfull, by rw [hcells]⟩⟩
    rw [growBlock, hlen, if_neg hfull, hcells]

/-- The loop fills the block with what it reads, or memory runs out. -/
lemma fillLoop_spec (a : TokenAnswer) (junk : ℕ → UInt8) {b : Block} {data : Bytes}
    (h : b.Stores data) (cs : Bytes) :
    match tokenLoop (grants a) cs ⟨data, b.cells.length⟩ with
    | none => fillLoop a junk cs b = .error .memory
    | some t => ∃ b', fillLoop a junk cs b = .ok b' ∧ b'.Stores t.data := by
  induction cs generalizing b data with
  | nil => exact ⟨b, rfl, h⟩
  | cons c cs ih =>
    rw [tokenLoop, fillLoop]
    rcases growBlock_spec a junk h with ⟨hfull, hno, herr⟩ |
      ⟨x, y, rest, hok, hbound, hsize⟩
    · rw [herr]
      simp only [hfull, hno, if_true]
      rfl
    · have hnext : (⟨data ++ c :: y :: rest, data.length + 1⟩ : Block).Stores (data ++ [c]) := by
        refine ⟨by simp, ⟨y, rest, by simp⟩, ?_⟩
        simpa using hbound
      have hcap : (data ++ c :: y :: rest).length = (data ++ x :: y :: rest).length := by simp
      rw [hok, ok_bind, h.len, poke_append, ok_bind]
      have hrest := ih hnext
      rcases hsize with ⟨hfull, hyes, hlen⟩ | ⟨hfull, hlen⟩
      · rw [hcap, hlen] at hrest
        simpa only [hfull, hyes, if_true] using hrest
      · rw [hcap, hlen] at hrest
        simpa only [hfull, if_false] using hrest

lemma trimEnd_spec {data : Bytes} (rest : Bytes) :
    trimEnd (data ++ rest) data.length = .ok (data.rdropWhile isspace).length := by
  induction data using List.reverseRecOn generalizing rest with
  | nil => rfl
  | append_singleton data c ih =>
    rw [List.length_append, List.length_singleton, trimEnd, List.append_assoc,
      List.singleton_append, peek_append, ok_bind, List.rdropWhile_concat]
    split_ifs with hc
    · exact ih _
    · simp

lemma skipStart_spec (done data rest : Bytes) :
    skipStart (done ++ data ++ rest) (done.length + data.length) data.length done.length =
      .ok (done.length + (data.takeWhile isspace).length) := by
  induction data generalizing done with
  | nil => rfl
  | cons c cs ih =>
    rw [List.length_cons, skipStart, if_pos (by omega), List.append_assoc, List.cons_append,
      peek_append, ok_bind, List.takeWhile_cons]
    split_ifs with hc
    · have hrest := ih (done ++ [c])
      simp only [List.length_append, List.length_singleton, List.append_assoc,
        List.nil_append, List.cons_append] at hrest
      rw [Nat.add_comm cs.length 1, ← Nat.add_assoc, hrest, List.length_cons]
      exact congrArg Except.ok (by omega)
    · rfl

/-- The token is moved over the white space before it and terminated. -/
lemma placeToken_close (sp token rest : Bytes) (x : UInt8) :
    (placeToken (sp ++ token ++ x :: rest) (sp.length + token.length) sp.length >>= closeToken) =
      if token = [] then .error .empty else .ok (cstring token) := by
  cases token with
  | nil =>
    rw [placeToken, if_neg (by simp), if_pos (by simp), ok_bind, closeToken, if_pos rfl, poke,
      if_pos (by simp)]
    rfl
  | cons c token =>
    have hclose : ∀ y ys, closeToken ⟨(c :: token) ++ y :: ys, (c :: token).length⟩ =
        .ok (cstring (c :: token)) := by
      intro y ys
      rw [closeToken, poke_append, ok_bind, if_neg (by simp), cstring_terminated]
    rw [if_neg (by simp)]
    cases sp with
    | nil =>
      rw [placeToken, if_neg (by simp), if_neg (by simp), ok_bind, List.nil_append,
        List.length_nil, Nat.zero_add]
      exact hclose x rest
    | cons d sp =>
      obtain ⟨y, ys, hys⟩ := List.exists_cons_of_length_pos (show 0 < (((d :: sp) ++ (c :: token) ++
        x :: rest).drop (c :: token).length).length by simp; omega)
      have hmove : moveDown ((d :: sp) ++ (c :: token) ++ x :: rest) (d :: sp).length
          (c :: token).length = .ok ((c :: token) ++ y :: ys) := by
        rw [moveDown, if_pos (by simp; omega), hys, List.append_assoc, List.drop_left,
          List.take_left]
      rw [placeToken, if_pos (by simp), Nat.add_sub_cancel_left, hmove, ok_bind, ok_bind]
      exact hclose y ys

lemma tokenLoop_data {realloc : ℕ → Bool} {cs : Bytes} {b t : TokenBuf}
    (h : tokenLoop realloc cs b = some t) : t.data = b.data ++ cs := by
  induction cs generalizing b with
  | nil =>
    obtain rfl := Option.some.inj h
    simp
  | cons c cs ih =>
    rw [tokenLoop] at h
    split_ifs at h
    · rw [ih h]
      simp
    · rw [ih h]
      simp

/-- What the two loops and the move make of a filled block. -/
lemma trimmed_spec {b : Block} {data : Bytes} (h : b.Stores data) :
    (do
      let len ← trimEnd b.cells b.len
      let start ← skipStart b.cells len len 0
      let b ← placeToken b.cells len start
      closeToken b) =
      if trimToken data = [] then .error .empty else .ok (cstring (trimToken data)) := by
  obtain ⟨hlen, ⟨x, rest, hcells⟩, -⟩ := h
  rw [hlen, hcells, trimEnd_spec, ok_bind]
  obtain ⟨tail, htail⟩ := List.rdropWhile_prefix isspace data
  obtain ⟨y, ys, hys⟩ : ∃ y ys, tail ++ x :: rest = y :: ys :=
    List.exists_cons_of_length_pos (by simp)
  have hblock : data ++ x :: rest = data.rdropWhile isspace ++ y :: ys := by
    rw [← hys, ← List.append_assoc, htail]
  have hskip := skipStart_spec [] (data.rdropWhile isspace) (y :: ys)
  rw [List.nil_append, List.length_nil, Nat.zero_add, Nat.zero_add] at hskip
  have hclose := placeToken_close ((data.rdropWhile isspace).takeWhile isspace)
    ((data.rdropWhile isspace).dropWhile isspace) ys y
  rw [List.takeWhile_append_dropWhile, ← List.length_append,
    List.takeWhile_append_dropWhile] at hclose
  rw [hblock, hskip, ok_bind]
  exact hclose

/-- The function with its buffer does what the model of the enrollment says. -/
theorem readTokenCells_file (a : TokenAnswer) (junk : ℕ → UInt8) (data : Bytes) :
    readTokenCells a junk (.file data) =
      if a.fopen = false then .error .fopen
      else if a.malloc = false then .error .memory
      else
        match tokenLoop (grants a) (data.take (a.readError.getD data.length)) ⟨[], 256⟩ with
        | none => .error .memory
        | some b =>
          if a.readError.isSome then .error .read
          else if trimToken b.data = [] then .error .empty
          else .ok (cstring (trimToken b.data)) := by
  have hstart : (⟨(List.range 256).map junk, 0⟩ : Block).Stores [] := by
    refine ⟨rfl, ⟨junk 0, ((List.range 256).map junk).tail, rfl⟩, ?_⟩
    rw [List.length_map, List.length_range, ptrdiffMax]
    omega
  have hfill := fillLoop_spec a junk hstart (data.take (a.readError.getD data.length))
  rw [List.length_map, List.length_range] at hfill
  rw [readTokenCells]
  simp only [reduceCtorEq, false_or]
  by_cases hopen : a.fopen = false
  · rw [if_pos hopen, if_pos hopen]
  by_cases hmalloc : a.malloc = false
  · rw [if_neg hopen, if_neg hopen, if_pos hmalloc, if_pos hmalloc]
  rw [if_neg hopen, if_neg hopen, if_neg hmalloc, if_neg hmalloc]
  cases hloop : tokenLoop (grants a) (data.take (a.readError.getD data.length)) ⟨[], 256⟩ with
  | none =>
    rw [hloop] at hfill
    rw [hfill]
    rfl
  | some t =>
    rw [hloop] at hfill
    obtain ⟨b, hb, hstores⟩ := hfill
    rw [hb, ok_bind]
    dsimp only
    rw [trimmed_spec hstores]

lemma readTokenCells_never_outOfBounds (a : TokenAnswer) (junk : ℕ → UInt8) (src : Source) :
    readTokenCells a junk src ≠ .error .outOfBounds := by
  cases src with
  | file data =>
    rw [readTokenCells_file]
    repeat' split
    all_goals simp
  | missing => simp [readTokenCells]
  | directory =>
    simp only [readTokenCells, reduceCtorEq, false_or]
    split_ifs <;> simp

/-- The enrollment's model of `read_token_file` is the function with its buffer,
as far as the outcome goes. -/
theorem readTokenCells_refines (a : TokenAnswer) (junk : ℕ → UInt8) (src : Source) :
    (readTokenCells a junk src).toOption = readTokenFile { a with realloc := grants a } src := by
  cases src with
  | file data =>
    rw [readTokenCells_file, readTokenFile]
    by_cases hopen : a.fopen = false
    · rw [if_pos hopen, if_pos (.inl hopen)]
      rfl
    by_cases hmalloc : a.malloc = false
    · rw [if_neg hopen, if_pos hmalloc, if_pos (.inr hmalloc)]
      rfl
    rw [if_neg hopen, if_neg hmalloc, if_neg (not_or.mpr ⟨hopen, hmalloc⟩)]
    cases tokenLoop (grants a) (data.take (a.readError.getD data.length)) ⟨[], 256⟩ with
    | none => rfl
    | some t =>
      dsimp only
      split_ifs <;> rfl
  | missing => simp [readTokenCells, readTokenFile, Except.toOption]
  | directory =>
    simp only [readTokenCells, readTokenFile, reduceCtorEq, false_or]
    split_ifs <;> rfl

/-- The blocks asked for are at most twice as long as the file. -/
lemma tokenLoop_isSome {realloc : ℕ → Bool} (cs : Bytes) (b : TokenBuf) {n : ℕ}
    (hn : b.data.length + cs.length ≤ n) (h : ∀ k ≤ 2 * n, realloc k = true) :
    (tokenLoop realloc cs b).isSome := by
  induction cs generalizing b with
  | nil => rfl
  | cons c cs ih =>
    rw [List.length_cons] at hn
    have hnext : ∀ cap, (tokenLoop realloc cs ⟨b.data ++ [c], cap⟩).isSome := by
      intro cap
      apply ih
      rw [List.length_append, List.length_singleton]
      omega
    rw [tokenLoop]
    split_ifs with hfull hgrant
    · exact hnext _
    · exact absurd (h (b.cap * 2) (by omega)) hgrant
    · exact hnext _

/-- A token is handed out just if the trimmed content is not empty, and then it
is the trimmed content. -/
def TokenExact (data : Bytes) (r : Except Stop CStr) : Prop :=
  ((∃ token, r = .ok token) ↔ trimToken data ≠ []) ∧ ∀ token, r = .ok token → token = trimToken data

/-- What is read without an error is the whole content. -/
lemma readTokenCells_undisturbed {a : TokenAnswer} {junk : ℕ → UInt8} {data : Bytes}
    (hopen : a.fopen = true) (hread : a.readError = none)
    (hmem : readTokenCells a junk (.file data) ≠ .error .memory) :
    readTokenCells a junk (.file data) =
      if trimToken data = [] then .error .empty else .ok (cstring (trimToken data)) := by
  rw [readTokenCells_file, hopen, hread, if_neg Bool.true_eq_false.mp] at hmem ⊢
  by_cases hmalloc : a.malloc = false
  · rw [if_pos hmalloc] at hmem
    exact absurd rfl hmem
  rw [if_neg hmalloc, Option.getD_none, List.take_length] at hmem ⊢
  cases hloop : tokenLoop (grants a) data ⟨[], 256⟩ with
  | none =>
    rw [hloop] at hmem
    exact absurd rfl hmem
  | some t =>
    have hdata : t.data = data := tokenLoop_data hloop
    dsimp only
    rw [hdata]
    rfl

/-- No access to the buffer is out of bounds, whatever the file and the answers
are, and memory suffices where twice the size of the file can be had. Of a file
that is read without an error the token is the trimmed content just if that has
no NUL in it: the string ends at the first one. -/
theorem readTokenCells_exact_iff (a : TokenAnswer) (junk : ℕ → UInt8) (data : Bytes) :
    readTokenCells a junk (.file data) ≠ .error .outOfBounds ∧
    (a.malloc = true → (∀ n ≤ 2 * data.length, grants a n = true) →
      readTokenCells a junk (.file data) ≠ .error .memory) ∧
    (a.fopen = true → a.readError = none →
      readTokenCells a junk (.file data) ≠ .error .memory →
      (TokenExact data (readTokenCells a junk (.file data)) ↔ 0 ∉ trimToken data)) := by
  refine ⟨readTokenCells_never_outOfBounds a junk _, ?_, ?_⟩
  · intro hmalloc hgrant
    obtain ⟨t, ht⟩ := Option.isSome_iff_exists.mp (tokenLoop_isSome
      (data.take (a.readError.getD data.length)) ⟨[], 256⟩ (by simp) hgrant)
    rw [readTokenCells_file, ht, hmalloc, if_neg Bool.true_eq_false.mp]
    dsimp only
    repeat' split
    all_goals simp
  · intro hopen hread hmem
    rw [readTokenCells_undisturbed hopen hread hmem, ← cstring_eq_self_iff]
    split_ifs with hempty
    · simp [TokenExact, hempty, cstring]
    · simp [TokenExact, hempty]

/-- Nothing fails. -/
def calmAnswer : TokenAnswer := ⟨true, true, fun _ => true, none⟩

theorem readTokenCells_exact_spaced :
    readTokenCells calmAnswer (fun _ => 7) (.file (text "\t tok en \n")) = .ok (text "tok en") ∧
    TokenExact (text "\t tok en \n")
      (readTokenCells calmAnswer (fun _ => 7) (.file (text "\t tok en \n"))) :=
  ⟨by decide +kernel, ((readTokenCells_exact_iff calmAnswer (fun _ => 7) _).2.2 rfl rfl
    ((readTokenCells_exact_iff calmAnswer (fun _ => 7) _).2.1 rfl
      (by decide +kernel))).mpr (by decide +kernel)⟩

/-- A file with a NUL as its only byte is not empty, and the token is. -/
theorem readTokenCells_zero_file :
    trimToken [0] = [0] ∧ readTokenCells calmAnswer (fun _ => 7) (.file [0]) = .ok [] ∧
    ¬ TokenExact [0] (readTokenCells calmAnswer (fun _ => 7) (.file [0])) := by
  have htrim : trimToken [0] = [0] := by decide +kernel
  have hempty : readTokenCells calmAnswer (fun _ => 7) (.file [0]) = .ok [] := by decide +kernel
  refine ⟨htrim, hempty, ?_⟩
  intro hexact
  have htoken := hexact.2 [] hempty
  rw [htrim] at htoken
  cases htoken

end OtaFetch.Token
