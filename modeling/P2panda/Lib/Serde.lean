import Mathlib.Control.Monad.Basic

/- CBOR data items, and the serde reading discipline over them.

   A serde `Serialize` implementation written against a CBOR backend produces a data item
   (RFC 8949 §3), and a `Deserialize` implementation consumes one. This module is that
   level of the design, below any byte encoding:

   * `Item` has a constructor for each major type the serde data model reaches: unsigned
     and negative integers, byte and text strings, arrays, maps, and the simple values
     `false`, `true` and `null`. Tags and floats are left out; no type read here uses them.
   * `Error` is serde's `de::Error`: a custom message, a message formatted around the
     error it wraps, a type mismatch, or a length mismatch.
   * `u64`, `byteBuf` and `vec` are the `Deserialize` of `u64`, of a byte buffer and of a
     `Vec`, each rejecting an item of another major type.
   * `Reader` is a visitor's `SeqAccess`: the elements of an array not yet taken.
     `nextElement` is `SeqAccess::next_element`; `nextRequired` and `nextWith` are the two
     ways a visitor in this development wraps it in `map_err` and `ok_or`.

   The `Except` lemmas first are the equations of the error monad that every decoder and
   store method of this development is written in. The `Reader` lemmas are the run
   equations a decoder proof rewrites with: one for each way `nextRequired` can end, and
   the bind and pure equations of the state monad. -/

/-! ## Computations in `Except` -/

namespace Except

variable {ε α β : Type}

@[simp] theorem ok_bind (a : α) (f : α → Except ε β) : (Except.ok a >>= f) = f a := rfl

@[simp] theorem error_bind (e : ε) (f : α → Except ε β) : (Except.error e >>= f) = .error e := rfl

@[simp] theorem pure_eq_ok (a : α) : (pure a : Except ε α) = .ok a := rfl

@[simp] theorem throw_eq_error (e : ε) : (throw e : Except ε α) = .error e := rfl

/-- A `mapM` in which every element succeeds succeeds. -/
theorem mapM_ok_of_forall {f : α → Except ε β} {l : List α} (h : ∀ x ∈ l, ∃ b, f x = .ok b) :
    ∃ bs, l.mapM f = .ok bs := by
  induction l with
  | nil => exact ⟨[], rfl⟩
  | cons x xs ih =>
    obtain ⟨b, hb⟩ := h x List.mem_cons_self
    obtain ⟨bs, hbs⟩ := ih fun y hy => h y (List.mem_cons_of_mem x hy)
    exact ⟨b :: bs, by simp [hb, hbs]⟩

/-- A `mapM` in which every element succeeds with a known value returns those values. -/
theorem mapM_eq_ok_map {f : α → Except ε β} {g : α → β} {l : List α}
    (h : ∀ x ∈ l, f x = .ok (g x)) : l.mapM f = .ok (l.map g) := by
  induction l with
  | nil => rfl
  | cons x xs ih =>
    rw [List.mapM_cons, h x List.mem_cons_self, ok_bind,
      ih fun y hy => h y (List.mem_cons_of_mem x hy)]
    rfl

/-- The same over a list of images. -/
theorem mapM_map_eq_ok_map {γ : Type} {f : γ → Except ε β} {k : α → γ} {g : α → β}
    {l : List α} (h : ∀ x ∈ l, f (k x) = .ok (g x)) : (l.map k).mapM f = .ok (l.map g) := by
  induction l with
  | nil => rfl
  | cons x xs ih =>
    rw [List.map_cons, List.mapM_cons, h x List.mem_cons_self, ok_bind,
      ih fun y hy => h y (List.mem_cons_of_mem x hy)]
    rfl

end Except

namespace Cbor

/-- A CBOR data item, by major type. -/
inductive Item where
  /-- Major type 0. -/
  | unsigned (n : UInt64)
  /-- Major type 1: the integer `-1 - n`. -/
  | negative (n : UInt64)
  /-- Major type 2. -/
  | bytes (bs : List UInt8)
  /-- Major type 3. -/
  | text (s : String)
  /-- Major type 4. -/
  | array (items : List Item)
  /-- Major type 5, entries in their encoded order. -/
  | map (entries : List (Item × Item))
  /-- Simple values 20 and 21. -/
  | bool (b : Bool)
  /-- Simple value 22. -/
  | null

/-- Whether an item is a byte string (major type 2). -/
def Item.isBytes : Item → Bool
  | .bytes _ => true
  | _ => false

/-- A deserialization error, as serde's `de::Error` builds them. -/
inductive Error where
  /-- `Error::custom(msg)`. -/
  | custom (msg : String)
  /-- `Error::custom(format!("{msg} {cause}"))`. -/
  | customWith (msg : String) (cause : Error)
  /-- `Error::invalid_type`: the item is not of the major type `expected` names. -/
  | invalidType (expected : String)
  /-- `Error::invalid_length`. -/
  | invalidLength (len expected : Nat)
  deriving DecidableEq, Repr

/-- The `Deserialize` of `u64`. -/
def u64 : Item → Except Error UInt64
  | .unsigned n => .ok n
  | _ => .error (.invalidType "u64")

/-- The `Deserialize` of a byte buffer (`serde_bytes::ByteBuf`). -/
def byteBuf : Item → Except Error (List UInt8)
  | .bytes bs => .ok bs
  | _ => .error (.invalidType "bytes")

/-- The `Deserialize` of `Vec<T>`, each element through `elem`. -/
def vec {α : Type} (elem : Item → Except Error α) : Item → Except Error (List α)
  | .array items => items.mapM elem
  | _ => .error (.invalidType "array")

/-- A visitor's `SeqAccess`: the array elements not yet taken. -/
abbrev Reader := StateT (List Item) (Except Error)

/-- `SeqAccess::next_element`: `none` once the elements are used up, otherwise the next
element through `de`. -/
def nextElement {α : Type} (de : Item → Except Error α) : Reader (Option α) := fun
  | [] => .ok (none, [])
  | x :: rest => (de x).map fun a => (some a, rest)

/-- `seq.next_element().map_err(|_| custom(invalid))?.ok_or(custom(missing))?`: the next
element must be there and must decode; the cause of a decoding error is dropped. -/
def nextRequired {α : Type} (de : Item → Except Error α) (invalid missing : String) :
    Reader α := fun items =>
  match nextElement de items with
  | .error _ => .error (.custom invalid)
  | .ok (none, _) => .error (.custom missing)
  | .ok (some a, rest) => .ok (a, rest)

/-- `seq.next_element().map_err(|err| custom(format!("{msg} {err}")))?`: the next element
if there is one; a decoding error is kept as the cause. -/
def nextWith {α : Type} (de : Item → Except Error α) (msg : String) : Reader (Option α) :=
  fun items =>
  match nextElement de items with
  | .error e => .error (.customWith msg e)
  | .ok r => .ok r

/-! ## Run equations -/


section Run

variable {α β : Type} (de : Item → Except Error α) (invalid missing msg : String)

@[simp] theorem nextElement_nil : nextElement de [] = .ok (none, []) := rfl

theorem nextElement_cons (x : Item) (rest : List Item) :
    nextElement de (x :: rest) = (de x).map fun a => (some a, rest) := rfl

@[simp] theorem nextRequired_nil : nextRequired de invalid missing [] = .error (.custom missing) :=
  rfl

/-- `nextRequired` on a nonempty sequence: the first element, decoded, or the custom
error in place of the decoding error. -/
@[simp] theorem nextRequired_cons (x : Item) (rest : List Item) :
    nextRequired de invalid missing (x :: rest) =
      match de x with
      | .ok a => .ok (a, rest)
      | .error _ => .error (.custom invalid) := by
  simp only [nextRequired, nextElement_cons]
  cases de x <;> rfl

@[simp] theorem nextWith_nil : nextWith de msg [] = .ok (none, []) := rfl

@[simp] theorem nextWith_cons (x : Item) (rest : List Item) :
    nextWith de msg (x :: rest) =
      match de x with
      | .ok a => .ok (some a, rest)
      | .error e => .error (.customWith msg e) := by
  simp only [nextWith, nextElement_cons]
  cases de x <;> rfl

@[simp] theorem run_bind (x : Reader α) (f : α → Reader β) (items : List Item) :
    (x >>= f) items = (match x items with
      | .ok (a, rest) => f a rest
      | .error e => .error e) := by
  show (x items >>= fun p => f p.1 p.2) = _
  cases x items <;> rfl

@[simp] theorem run_pure (a : α) (items : List Item) :
    (pure a : Reader α) items = .ok (a, items) := rfl

@[simp] theorem run_throw (e : Error) (items : List Item) :
    (throw e : Reader α) items = .error e := rfl

/-- A bind that succeeded ran both of its parts successfully. -/
theorem bind_ok {x : Reader α} {f : α → Reader β} {items rest : List Item} {b : β}
    (h : (x >>= f) items = .ok (b, rest)) :
    ∃ a mid, x items = .ok (a, mid) ∧ f a mid = .ok (b, rest) := by
  rw [run_bind] at h
  match hx : x items, h with
  | .ok (a, mid), h => exact ⟨a, mid, rfl, h⟩
  | .error e, h => cases h

@[simp] theorem u64_unsigned (n : UInt64) : u64 (.unsigned n) = .ok n := rfl

@[simp] theorem u64_bytes (bs : List UInt8) : u64 (.bytes bs) = .error (.invalidType "u64") :=
  rfl

@[simp] theorem vec_bytes (bs : List UInt8) :
    vec de (.bytes bs) = .error (.invalidType "array") := rfl

/-- A `Vec` of values each decoding back decodes back. -/
theorem vec_array_map {ser : α → Item} (hde : ∀ a, de (ser a) = .ok a) (l : List α) :
    vec de (.array (l.map ser)) = .ok l := by
  induction l with
  | nil => rfl
  | cons a l ih =>
    simp only [vec, List.map_cons, List.mapM_cons, hde] at ih ⊢
    rw [ih]
    rfl

end Run

/-! ## Sequences with an optional element -/

/-- An optional byte-string element followed by an element that is not a byte string:
equal sequences of this shape agree on the option, on that element and on the rest. This
is why leaving out a `None` field is unambiguous when the field after it has another major
type. -/
theorem optional_cons_inj {α : Type} {f : α → Item} (hf : Function.Injective f)
    (hbytes : ∀ a, (f a).isBytes = true) {o₁ o₂ : Option α} {x₁ x₂ : Item}
    (hx₁ : x₁.isBytes = false) (hx₂ : x₂.isBytes = false) {r₁ r₂ : List Item}
    (h : (o₁.map f).toList ++ x₁ :: r₁ = (o₂.map f).toList ++ x₂ :: r₂) :
    o₁ = o₂ ∧ x₁ = x₂ ∧ r₁ = r₂ := by
  cases o₁ with
  | none =>
    cases o₂ with
    | none =>
      obtain ⟨hx, hr⟩ := List.cons.inj h
      exact ⟨rfl, hx, hr⟩
    | some b =>
      have hx : x₁ = f b := (List.cons.inj h).1
      have := hbytes b
      rw [← hx, hx₁] at this
      cases this
  | some a =>
    cases o₂ with
    | none =>
      have hx : f a = x₂ := (List.cons.inj h).1
      have := hbytes a
      rw [hx, hx₂] at this
      cases this
    | some b =>
      obtain ⟨hab, hr⟩ := List.cons.inj h
      obtain ⟨hx, hr⟩ := List.cons.inj hr
      exact ⟨congrArg some (hf hab), hx, hr⟩

/-- A trailing optional element: equal sequences agree on the option. -/
theorem optional_toList_inj {α : Type} {f : α → Item} (hf : Function.Injective f)
    {o₁ o₂ : Option α} (h : (o₁.map f).toList = (o₂.map f).toList) : o₁ = o₂ := by
  cases o₁ <;> cases o₂
  · rfl
  · cases h
  · cases h
  · simp only [Option.map_some, Option.toList_some, List.cons.injEq, and_true] at h
    rw [hf h]

end Cbor
