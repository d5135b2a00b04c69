import Mathlib.Tactic.Common

/-!
# Checked access to buffers

A buffer is a list of its size.  `read` and `write` access one element, and are a
`Fault` outside of the buffer; `readRange` and `writeRange` access several, one after
the other, as copying memory does.  The rules `readRange_eq` and `writeRange_eq` say
when a range is inside of the buffer, and what is then read, or left.

A `Run` is a computation with such accesses that may also return an error.  `Agrees`
relates it to the same computation without buffers: it commits no fault, and returns
the same error or a related value.
-/

namespace Buffer

variable {α : Type*}

/-- An access that the language does not allow. -/
inductive Fault
  | read
  | write
  /-- A string without a terminator in its buffer. -/
  | unterminated
  deriving DecidableEq

/-- Reads one element. -/
def read (buf : List α) (i : ℕ) : Except Fault α :=
  match buf[i]? with
  | some a => .ok a
  | none => .error .read

/-- Writes one element. -/
def write (buf : List α) (i : ℕ) (a : α) : Except Fault (List α) :=
  if i < buf.length then .ok (buf.set i a) else .error .write

/-- Reads `n` elements from `i` on, one after the other. -/
def readRange (buf : List α) (i : ℕ) : ℕ → Except Fault (List α)
  | 0 => .ok []
  | n + 1 => do
    let a ← read buf i
    let as ← readRange buf (i + 1) n
    return a :: as

/-- Writes elements from `i` on, one after the other. -/
def writeRange (buf : List α) (i : ℕ) : List α → Except Fault (List α)
  | [] => .ok buf
  | a :: as => do
    let buf ← write buf i a
    writeRange buf (i + 1) as

/-- An element of the buffer is read. -/
lemma read_of_getElem? {buf : List α} {i : ℕ} {a : α} (h : buf[i]? = some a) :
    read buf i = .ok a := by
  rw [read, h]

/-- Reading the first element. -/
@[simp] lemma read_zero (a : α) (buf : List α) : read (a :: buf) 0 = .ok a := rfl

/-- Reading any other element. -/
@[simp] lemma read_succ (a : α) (buf : List α) (i : ℕ) : read (a :: buf) (i + 1) = read buf i := rfl

/-- Writing behind a part of the buffer. -/
lemma write_append (pre : List α) (b : α) (post : List α) (a : α) :
    write (pre ++ b :: post) pre.length a = .ok (pre ++ a :: post) := by
  have hlt : pre.length < (pre ++ b :: post).length := by
    rw [List.length_append, List.length_cons]
    omega
  rw [write, if_pos hlt, List.set_append_right _ _ (Nat.le_refl _), Nat.sub_self,
    List.set_cons_zero]

/-- Writing at the end of the buffer. -/
lemma write_length (buf : List α) (a : α) : write buf buf.length a = .error .write :=
  if_neg (Nat.lt_irrefl _)

/-- What is read from a range, and when. -/
theorem readRange_eq (buf : List α) (i n : ℕ) :
    readRange buf i n =
      if i + n ≤ buf.length ∨ n = 0 then .ok ((buf.drop i).take n) else .error .read := by
  induction n generalizing i with
  | zero => simp [readRange]
  | succ n ih =>
    rcases hget : buf[i]? with _ | a
    · have hlen : buf.length ≤ i := List.getElem?_eq_none_iff.mp hget
      rw [readRange, read, hget, if_neg (by omega)]
      rfl
    · obtain ⟨hlt, ha⟩ := List.getElem?_eq_some_iff.mp hget
      have hdrop : buf.drop i = a :: buf.drop (i + 1) := by
        rw [List.drop_eq_getElem_cons hlt, ha]
      rw [readRange, read_of_getElem? hget, ih, hdrop, List.take_succ_cons]
      by_cases hfits : i + 1 + n ≤ buf.length ∨ n = 0
      · rw [if_pos hfits, if_pos (by omega)]
        rfl
      · rw [if_neg hfits, if_neg (by omega)]
        rfl

/-- What is left of a buffer after a range behind a part of it was written, and when it can be. -/
theorem writeRange_eq (pre post as : List α) :
    writeRange (pre ++ post) pre.length as =
      if as.length ≤ post.length then .ok (pre ++ as ++ post.drop as.length)
      else .error .write := by
  induction as generalizing pre post with
  | nil => simp [writeRange]
  | cons a as ih =>
    rcases post with _ | ⟨b, post⟩
    · rw [writeRange, List.append_nil, write_length, if_neg (by simp)]
      rfl
    · have hwrite : writeRange (pre ++ b :: post) pre.length (a :: as) =
          writeRange ((pre ++ [a]) ++ post) (pre ++ [a]).length as := by
        rw [writeRange, write_append, List.append_assoc, List.length_append]
        rfl
      rw [hwrite, ih]
      simp

/-- A range that fits is written. -/
lemma writeRange_of_le {pre post as : List α} {i : ℕ} (hi : pre.length = i)
    (h : as.length ≤ post.length) :
    writeRange (pre ++ post) i as = .ok (pre ++ as ++ post.drop as.length) := by
  subst hi
  rw [writeRange_eq, if_pos h]

/-- A range that does not fit is not. -/
lemma writeRange_of_lt {pre post as : List α} {i : ℕ} (hi : pre.length = i)
    (h : post.length < as.length) : writeRange (pre ++ post) i as = .error .write := by
  subst hi
  rw [writeRange_eq, if_neg (Nat.not_le.mpr h)]

/-- The front of a buffer is overwritten. -/
lemma writeRange_zero {buf as : List α} (h : as.length ≤ buf.length) :
    writeRange buf 0 as = .ok (as ++ buf.drop as.length) :=
  writeRange_of_le (i := 0) (List.length_nil (α := α)) h

/-- A whole buffer is overwritten. -/
lemma writeRange_all {buf as : List α} (h : as.length = buf.length) :
    writeRange buf 0 as = .ok as := by
  rw [writeRange_zero (Nat.le_of_eq h), h, List.drop_length, List.append_nil]

/-- The first elements are read. -/
lemma readRange_zero {buf : List α} {n : ℕ} (h : n ≤ buf.length) :
    readRange buf 0 n = .ok (buf.take n) := by
  rw [readRange_eq, if_pos (Or.inl (by omega)), List.drop_zero]

/-- A whole buffer is read. -/
lemma readRange_all {buf : List α} {n : ℕ} (h : buf.length = n) : readRange buf 0 n = .ok buf := by
  rw [readRange_zero (Nat.le_of_eq h.symm), ← h, List.take_length]

/-! ## Computations -/

/-- A computation that may return an error, or be a fault. -/
abbrev Run (ε α : Type) := ExceptT ε (Except Fault) α

variable {ε A A' B B' : Type}

/-- An access within a computation. -/
def access (x : Except Fault A) : Run ε A := ExceptT.lift x

/-- A computation commits no fault, and returns the same error, or a related value. -/
def Agrees (R : A → B → Prop) (x : Run ε A) : Except ε B → Prop
  | .error e => x.run = .ok (.error e)
  | .ok b => ∃ a, x.run = .ok (.ok a) ∧ R a b

/-- An access that is no fault. -/
lemma access_bind {x : Except Fault A} {a : A} (hx : x = .ok a) (f : A → Run ε A') :
    (access x >>= f : Run ε A') = f a := by
  subst hx
  rfl

/-- An access that is a fault ends the computation. -/
lemma access_bind_error {x : Except Fault A} {e : Fault} (hx : x = .error e) (f : A → Run ε A') :
    (access x >>= f : Run ε A').run = .error e := by
  subst hx
  rfl

/-- Related values. -/
lemma Agrees.pure {R : A → B → Prop} {a : A} {b : B} (h : R a b) :
    Agrees R (pure a : Run ε A) (.ok b) :=
  ⟨a, rfl, h⟩

/-- The same error. -/
lemma Agrees.throw (R : A → B → Prop) (e : ε) : Agrees R (throw e : Run ε A) (.error e) := rfl

/-- Two computations in two parts agree when both parts do. -/
theorem Agrees.bind {R : A → B → Prop} {S : A' → B' → Prop} {x : Run ε A} {y : Except ε B}
    {f : A → Run ε A'} {g : B → Except ε B'} (hxy : Agrees R x y)
    (hfg : ∀ a b, y = .ok b → R a b → Agrees S (f a) (g b)) : Agrees S (x >>= f) (y >>= g) := by
  rcases y with e | b
  · have hrun : (x >>= f).run = .ok (.error e) := by
      rw [ExceptT.run_bind, show x.run = .ok (.error e) from hxy]
      rfl
    exact hrun
  · obtain ⟨a, hx, hR⟩ := hxy
    have hrun : (x >>= f).run = (f a).run := by
      rw [ExceptT.run_bind, hx]
      rfl
    have hnext := hfg a b rfl hR
    have hbind : (Except.ok b >>= g) = g b := rfl
    rw [hbind]
    rcases hgb : g b with e | b'
    · rw [hgb] at hnext
      exact hrun.trans hnext
    · rw [hgb] at hnext
      obtain ⟨a', hf, hS⟩ := hnext
      exact ⟨a', hrun.trans hf, hS⟩

/-- The result of a computation that returns the same value. -/
lemma Agrees.run_eq {x : Run ε A} {y : Except ε A} (h : Agrees Eq x y) : x.run = .ok y := by
  rcases y with e | b
  · exact h
  · obtain ⟨a, hx, rfl⟩ := h
    exact hx

end Buffer
