import Mathlib.Data.List.Basic

/- Framing of a byte stream by a decoder that knows where a frame ends, in the shape of
   tokio's `Decoder` as `FramedRead` drives it: bytes arrive in chunks, each chunk is
   appended to a read buffer, and the decoder is called on the buffer until it asks for
   more.

   A decoder maps the buffer to a frame and the bytes after it, to `none` and the buffer
   as it was (the bytes end inside a frame), or to an error. For a stream of frames
   written by `enc`, `Frames decode enc` asks two things of it: the encoding of a frame,
   followed by anything, decodes to that frame; and the empty buffer, or a strict prefix
   of an encoding, decodes to `none`. Nothing is asked of other inputs.

   Results:
   1. `StrictPrefix.append_cases`: a strict prefix of `l₁ ++ l₂` is a strict prefix of
      `l₁`, or `l₁` followed by a strict prefix of `l₂`.
   2. `Frames.decode_prefix`: on a prefix of a stream of frames the decoder returns the
      next frame, or asks for more, and the latter only on a strict prefix of the next
      frame (or at the end).
   3. `Frames.drain_prefix`: draining a prefix of the stream yields the frames it holds
      whole and leaves a strict prefix of the next.
   4. `Frames.readChunks_flatten`: however the stream is cut into chunks, the reader
      yields every frame, in order, and ends with an empty buffer. -/
namespace Framing

variable {B α ε : Type}

/-- `p` is a prefix of `l` that stops short of its end. -/
def StrictPrefix (p l : List B) : Prop := ∃ r, r ≠ [] ∧ p ++ r = l

theorem StrictPrefix.length_lt {p l : List B} (h : StrictPrefix p l) : p.length < l.length := by
  obtain ⟨r, hr, rfl⟩ := h
  have := List.length_pos_of_ne_nil hr
  simp only [List.length_append]
  omega

theorem StrictPrefix.nil_of_ne_nil {l : List B} (hl : l ≠ []) : StrictPrefix [] l :=
  ⟨l, hl, rfl⟩

theorem not_strictPrefix_nil (p : List B) : ¬StrictPrefix p [] := by
  rintro ⟨r, hr, h⟩
  exact hr (List.append_eq_nil_iff.mp h).2

/-- A prefix of `c ++ d`, followed by `b`, either stops inside `c` or runs through it. -/
theorem append_eq_append_split {a b c d : List B} (h : a ++ b = c ++ d) :
    StrictPrefix a c ∨ ∃ a', a = c ++ a' ∧ a' ++ b = d := by
  rcases List.append_eq_append_iff.mp h with ⟨a', hc, hb⟩ | ⟨c', ha, hd⟩
  · by_cases ha' : a' = []
    · -- `a` is all of `c`
      subst ha'
      exact .inr ⟨[], by simp [hc], by simp [hb]⟩
    · exact .inl ⟨a', ha', hc.symm⟩
  · exact .inr ⟨c', ha, hd.symm⟩

theorem StrictPrefix.append_cases {p l₁ l₂ : List B} (h : StrictPrefix p (l₁ ++ l₂)) :
    StrictPrefix p l₁ ∨ ∃ p', p = l₁ ++ p' ∧ StrictPrefix p' l₂ := by
  obtain ⟨r, hr, hp⟩ := h
  rcases append_eq_append_split hp with hp | ⟨p', rfl, hp'⟩
  · exact .inl hp
  · exact .inr ⟨p', rfl, r, hr, hp'⟩

section Reader

variable (decode : List B → Except ε (Option α × List B))

/-- Call `decode` on the buffer until it returns no frame, at most `fuel` times: the
frames it returned and the buffer it left. -/
def drain : Nat → List B → Except ε (List α × List B)
  | 0, buf => .ok ([], buf)
  | fuel + 1, buf =>
    match decode buf with
    | .error e => .error e
    | .ok (none, buf) => .ok ([], buf)
    | .ok (some a, buf) =>
      match drain fuel buf with
      | .error e => .error e
      | .ok (as, buf) => .ok (a :: as, buf)

/-- `FramedRead` over a sequence of reads: each chunk is appended to the buffer, and the
buffer drained; the frames of all chunks and the buffer after the last. Each drain has
one call more than the buffer has bytes, enough when every frame takes a byte. -/
def readChunks : List B → List (List B) → Except ε (List α × List B)
  | buf, [] => .ok ([], buf)
  | buf, chunk :: chunks =>
    match drain decode ((buf ++ chunk).length + 1) (buf ++ chunk) with
    | .error e => .error e
    | .ok (as, buf) =>
      match readChunks buf chunks with
      | .error e => .error e
      | .ok (bs, rest) => .ok (as ++ bs, rest)

end Reader

/-- What `decode` must do on a stream of frames written by `enc`. -/
structure Frames (decode : List B → Except ε (Option α × List B)) (enc : α → List B) :
    Prop where
  /-- A whole frame decodes, and the bytes after it are left. -/
  complete : ∀ a rest, decode (enc a ++ rest) = .ok (some a, rest)
  /-- The empty buffer and a strict prefix of a frame ask for more. -/
  incomplete : ∀ p, (p = [] ∨ ∃ a, StrictPrefix p (enc a)) → decode p = .ok (none, p)

section Frames

variable {decode : List B → Except ε (Option α × List B)} {enc : α → List B}

theorem Frames.enc_ne_nil (hF : Frames decode enc) (a : α) : enc a ≠ [] := by
  intro h
  have hsome := hF.complete a []
  rw [h, List.append_nil, hF.incomplete [] (.inl rfl)] at hsome
  cases hsome

/-- On a prefix `p` of the stream `as`, followed by `q`: either the next frame is whole in
`p` and decodes, or the decoder asks for more, `p` being a strict prefix of the next
frame (or empty, at the end of the stream). -/
theorem Frames.decode_prefix (hF : Frames decode enc) {as : List α} {p q : List B}
    (h : p ++ q = as.flatMap enc) :
    (∃ a as' p', as = a :: as' ∧ p = enc a ++ p' ∧ decode p = .ok (some a, p') ∧
        p' ++ q = as'.flatMap enc) ∨
      (decode p = .ok (none, p) ∧ ∀ a ∈ as.head?, StrictPrefix p (enc a)) := by
  cases as with
  | nil =>
    have hp : p = [] := (List.append_eq_nil_iff.mp h).1
    subst hp
    exact .inr ⟨hF.incomplete [] (.inl rfl), by simp⟩
  | cons a as =>
    rw [List.flatMap_cons] at h
    rcases append_eq_append_split h with hp | ⟨p', rfl, hp'⟩
    · exact .inr ⟨hF.incomplete p (.inr ⟨a, hp⟩), by simpa using hp⟩
    · exact .inl ⟨a, as, p', rfl, rfl, hF.complete a p', hp'⟩

/-- Draining a prefix of the stream, with more calls than it has bytes, yields the frames
whole in it and leaves a strict prefix of the next. The induction is on the fuel, one
unit per frame returned. -/
theorem Frames.drain_prefix (hF : Frames decode enc) (fuel : Nat) :
    ∀ (as : List α) (p q : List B), p ++ q = as.flatMap enc → p.length < fuel →
      ∃ done todo rest, drain decode fuel p = .ok (done, rest) ∧ as = done ++ todo ∧
        rest ++ q = todo.flatMap enc ∧ ∀ a ∈ todo.head?, StrictPrefix rest (enc a) := by
  induction fuel with
  | zero => intro _ _ _ _ hlen; omega
  | succ fuel ih =>
    intro as p q h hlen
    rcases hF.decode_prefix h with ⟨a, as', p', rfl, rfl, hdec, hp'⟩ | ⟨hdec, hhead⟩
    · -- a whole frame: it is returned, and the rest of the buffer drained
      have hshort : p'.length < fuel := by
        have := List.length_pos_of_ne_nil (hF.enc_ne_nil a)
        simp only [List.length_append] at hlen
        omega
      obtain ⟨done, todo, rest, hdrain, rfl, hrest, hhead⟩ := ih as' p' q hp' hshort
      refine ⟨a :: done, todo, rest, ?_, rfl, hrest, hhead⟩
      simp only [drain, hdec, hdrain]
    · exact ⟨[], as, p, by simp only [drain, hdec], rfl, h, hhead⟩

/-- However the rest of the stream is cut into chunks, a reader whose buffer is a strict
prefix of the next frame yields every remaining frame and ends with an empty buffer. -/
theorem Frames.readChunks_flatten (hF : Frames decode enc) (chunks : List (List B)) :
    ∀ (buf : List B) (as : List α), buf ++ chunks.flatten = as.flatMap enc →
      (∀ a ∈ as.head?, StrictPrefix buf (enc a)) →
        readChunks decode buf chunks = .ok (as, []) := by
  induction chunks with
  | nil =>
    intro buf as h hhead
    rw [List.flatten_nil, List.append_nil] at h
    cases as with
    | nil => simp [readChunks, h]
    | cons a as =>
      -- a strict prefix of the next frame cannot hold all of it
      have hlt := (hhead a rfl).length_lt
      have hle : (enc a).length ≤ buf.length := by simp [h]
      omega
  | cons chunk chunks ih =>
    intro buf as h hhead
    have h' : (buf ++ chunk) ++ chunks.flatten = as.flatMap enc := by
      rw [List.append_assoc, ← List.flatten_cons, h]
    obtain ⟨done, todo, rest, hdrain, rfl, hrest, hhead'⟩ :=
      hF.drain_prefix _ as (buf ++ chunk) chunks.flatten h' (Nat.lt_succ_self _)
    simp only [readChunks, hdrain, ih rest todo hrest hhead']

/-- A reader that starts empty yields the frames of the stream, for every cut. -/
theorem Frames.readChunks_nil (hF : Frames decode enc) {chunks : List (List B)} {as : List α}
    (h : chunks.flatten = as.flatMap enc) : readChunks decode [] chunks = .ok (as, []) :=
  hF.readChunks_flatten chunks [] as (by simpa using h)
    fun a _ => StrictPrefix.nil_of_ne_nil (hF.enc_ne_nil a)

end Frames

end Framing
