import RecordLayout.Proofs.Slots

/-!
# Accesses to a buffer

Reading or writing a value is a list of accesses, each to the bytes between two positions behind an offset. They are
done in their order up to the first one that would reach behind the buffer (`readAll`, `writeAll`). If each access ends
where the next one starts, the ones that are done are exactly those that fit (`Adjoin.exists_split`), so that they can
be told without running the others: `readAll_eq` and `exists_writeAll_eq`. With positions of 64 bits it is the same
(`readWords_eq`, `writeWords_eq`). `Runs` says that a way to read and write is
such a list, and is put together like `Slot`.
-/

namespace RecordLayout

variable {α β γ σ : Type}

/-- The same state at the end of an attempt or where it had to stop. -/
def Attempt.ended (p : Prop) [Decidable p] (s : σ) : Attempt σ := if p then .ok s else .error s

/-- A part of a larger value; a value may lack it. -/
structure Part (γ β : Type) where
  get? : γ → Option β
  put : γ → β → γ
  get?_put : ∀ {x v} w, get? x = some v → get? (put x w) = some w
  put_put : ∀ x v w, put (put x v) w = put x w
  put_get : ∀ {x v}, get? x = some v → put x v = x

namespace Part

def head : Part (List α) α where
  get? := List.head?
  put
    | [], _ => []
    | _ :: vs, v => v :: vs
  get?_put := by rintro (_ | _) _ _ h <;> simp at h ⊢
  put_put := by rintro (_ | _) _ _ <;> rfl
  put_get := by rintro (_ | _) _ h <;> simp at h ⊢; exact h.symm

def tail : Part (List α) (List α) where
  get? := List.tail?
  put
    | [], _ => []
    | v :: _, vs => v :: vs
  get?_put := by rintro (_ | _) _ _ h <;> simp at h ⊢
  put_put := by rintro (_ | _) _ _ <;> rfl
  put_get := by rintro (_ | _) _ h <;> simp at h ⊢; exact h.symm

end Part

/-- One access: the bytes between two positions, and the part of a value that they stand for. -/
structure Access (α : Type) where
  first : Nat
  last : Nat
  /-- The value with that part as the bytes give it. -/
  load : Bytes → α → α
  /-- The bytes of that part. -/
  store : α → Bytes

namespace Access

/-- The same access further behind. -/
def shift (n : Nat) (a : Access α) : Access α := { a with first := n + a.first, last := n + a.last }

/-- An access to a part of a value is one to the value. -/
def inside (p : Part γ β) (a : Access β) : Access γ where
  first := a.first
  last := a.last
  load bytes x :=
    match p.get? x with
    | some v => p.put x (a.load bytes v)
    | none => x
  store x :=
    match p.get? x with
    | some v => a.store v
    | none => []

/-- Loads what stands in the buffer. -/
def loadFrom (b : Bytes) (offset : Nat) (v : α) (a : Access α) : α :=
  a.load ((b.drop (offset + a.first)).take (a.last - a.first)) v

def storeInto (v : α) (offset : Nat) (b : Bytes) (a : Access α) : Bytes :=
  Scalar.splice b (offset + a.first) (a.store v)

def readAll (b : Bytes) (offset : Nat) : List (Access α) → α → Attempt α
  | [], v => .ok v
  | a :: as, v => if offset + a.last ≤ b.length then readAll b offset as (a.loadFrom b offset v) else .error v

def writeAll (v : α) (offset : Nat) : List (Access α) → Bytes → Attempt Bytes
  | [], b => .ok b
  | a :: as, b => if offset + a.last ≤ b.length then writeAll v offset as (a.storeInto v offset b) else .error b

/-- Reading with positions of 64 bits. -/
def readWords (b : Bytes) (offset : UInt64) : List (Access α) → α → Attempt α
  | [], v => .ok v
  | a :: as, v =>
    let first := offset + .ofNat a.first
    let last := offset + .ofNat a.last
    if b.HasRange first last then
      readWords b offset as (a.load ((b.drop first.toNat).take (last.toNat - first.toNat)) v)
    else .error v

/-- Writing with positions of 64 bits. -/
def writeWords (v : α) (offset : UInt64) : List (Access α) → Bytes → Attempt Bytes
  | [], b => .ok b
  | a :: as, b =>
    let first := offset + .ofNat a.first
    if b.HasRange first (offset + .ofNat a.last) then
      writeWords v offset as (Scalar.splice b first.toNat (a.store v))
    else .error b

variable {b : Bytes} {offset : Nat} {as as' : List (Access α)} {v : α}

theorem readAll_append (as as' : List (Access α)) (b : Bytes) (offset : Nat) (v : α) :
    readAll b offset (as ++ as') v = (readAll b offset as v).bind (readAll b offset as') := by
  induction as generalizing v with
  | nil => rfl
  | cons a as ih =>
    simp only [List.cons_append, readAll]
    split
    · exact ih _
    · rfl

theorem writeAll_append (as as' : List (Access α)) (v : α) (offset : Nat) (b : Bytes) :
    writeAll v offset (as ++ as') b = (writeAll v offset as b).bind (writeAll v offset as') := by
  induction as generalizing b with
  | nil => rfl
  | cons a as ih =>
    simp only [List.cons_append, writeAll]
    split
    · exact ih _
    · rfl

theorem readAll_shift (n : Nat) (as : List (Access α)) (b : Bytes) (offset : Nat) (v : α) :
    readAll b offset (as.map (shift n)) v = readAll b (offset + n) as v := by
  induction as generalizing v with
  | nil => rfl
  | cons a as ih =>
    simp only [List.map_cons, readAll, loadFrom, shift, ih, ← Nat.add_assoc, Nat.add_sub_add_left]

theorem writeAll_shift (n : Nat) (as : List (Access α)) (v : α) (offset : Nat) (b : Bytes) :
    writeAll v offset (as.map (shift n)) b = writeAll v (offset + n) as b := by
  induction as generalizing b with
  | nil => rfl
  | cons a as ih => simp only [List.map_cons, writeAll, storeInto, shift, ih, ← Nat.add_assoc]

theorem readAll_inside {p : Part γ β} {x : γ} {w : β} (h : p.get? x = some w) (as : List (Access β)) (b : Bytes)
    (offset : Nat) : readAll b offset (as.map (inside p)) x = (readAll b offset as w).map (p.put x) := by
  induction as generalizing x w with
  | nil =>
    show Except.ok x = Except.ok (p.put x w)
    rw [p.put_get h]
  | cons a as ih =>
    have hload : (a.inside p).loadFrom b offset x = p.put x (a.loadFrom b offset w) := by
      simp only [loadFrom, inside, h]
    simp only [List.map_cons, readAll, hload, show (a.inside p).last = a.last from rfl]
    split
    · rw [ih (p.get?_put _ h)]
      congr 1
      funext u
      exact p.put_put _ _ _
    · show Except.error x = Except.error (p.put x w)
      rw [p.put_get h]

theorem writeAll_inside {p : Part γ β} {x : γ} {w : β} (h : p.get? x = some w) (as : List (Access β)) (offset : Nat)
    (b : Bytes) : writeAll x offset (as.map (inside p)) b = writeAll w offset as b := by
  induction as generalizing b with
  | nil => rfl
  | cons a as ih =>
    have hstore : (a.inside p).storeInto x offset b = a.storeInto w offset b := by
      simp only [storeInto, inside, h]
    simp only [List.map_cons, writeAll, hstore, ih]
    rfl

/-- The accesses to the elements of a list, `stride` bytes apart. -/
def each (as : List (Access α)) (stride : Nat) : Nat → Nat → List (Access (List α))
  | _, 0 => []
  | pos, n + 1 => (as.map (shift pos)).map (inside .head) ++ (each as stride (pos + stride) n).map (inside .tail)

end Access

open Access

/-- Reading and writing are done by accesses behind an offset. -/
structure Runs (offset : Nat) (read : Bytes → α → Attempt α) (write : α → Bytes → Attempt Bytes)
    (as : List (Access α)) (Valid : α → Prop) : Prop where
  read_eq : ∀ {b w}, Valid w → read b w = readAll b offset as w
  write_eq : ∀ {v b}, Valid v → write v b = writeAll v offset as b

namespace Runs

variable {offset : Nat} {read : Bytes → α → Attempt α} {write : α → Bytes → Attempt Bytes}
variable {as : List (Access α)} {Valid : α → Prop}

theorem map {read' : Bytes → β → Attempt β} {write' : β → Bytes → Attempt Bytes} {Valid' : β → Prop}
    (h : Runs offset read write as Valid) (p : Part β α) (e : α → β) (he : ∀ x, Valid' x → ∃ v, Valid v ∧ e v = x)
    (hget : ∀ v, p.get? (e v) = some v) (hput : ∀ v w, p.put (e v) w = e w)
    (hr : ∀ b w, Valid w → read' b (e w) = (read b w).map e)
    (hw : ∀ v b, Valid v → write' (e v) b = write v b) : Runs offset read' write' (as.map (inside p)) Valid' := by
  constructor
  · intro b x hx
    obtain ⟨w, hv, rfl⟩ := he x hx
    rw [hr b w hv, h.read_eq hv, readAll_inside (hget w), funext (hput w)]
  · intro x b hx
    obtain ⟨v, hv, rfl⟩ := he x hx
    rw [hw v b hv, h.write_eq hv, writeAll_inside (hget v)]

theorem cons {r₁ : Bytes → α → Attempt α} {r₂ : Bytes → List α → Attempt (List α)}
    {w₁ : α → Bytes → Attempt Bytes} {w₂ : List α → Bytes → Attempt Bytes} {V₁ : α → Prop} {V₂ : List α → Prop}
    {as₁ : List (Access α)} {as₂ : List (Access (List α))} (h₁ : Runs offset r₁ w₁ as₁ V₁)
    (h₂ : Runs offset r₂ w₂ as₂ V₂) :
    Runs offset (readCons r₁ r₂) (writeCons w₁ w₂) (as₁.map (inside .head) ++ as₂.map (inside .tail))
      (ValidCons V₁ V₂) := by
  constructor
  · rintro b (_ | ⟨w, ws⟩) hw
    · exact hw.elim
    · rw [readCons, readAll_append, readAll_inside (p := .head) rfl, h₁.read_eq hw.1, h₂.read_eq hw.2]
      rcases readAll b offset as₁ w with v | v
      · rfl
      · exact (readAll_inside (p := .tail) (x := v :: ws) rfl as₂ b offset).symm
  · rintro (_ | ⟨v, vs⟩) b hv
    · exact hv.elim
    · rw [writeCons, writeAll_append, writeAll_inside (p := .head) rfl, h₁.write_eq hv.1]
      rcases writeAll v offset as₁ b with b' | b'
      · rfl
      · show w₂ vs b' = writeAll (v :: vs) offset (as₂.map (inside .tail)) b'
        rw [h₂.write_eq hv.2, writeAll_inside (p := .tail) (x := v :: vs) rfl]

end Runs

/-- A codec does the same accesses at every offset. -/
def Codec.Runs (c : Codec α) (as : List (Access α)) (Valid : α → Prop) : Prop :=
  ∀ offset, RecordLayout.Runs offset (fun b v => c.read b offset v) (fun v b => c.write v b offset) as Valid

namespace Codec.Runs

variable {c : Codec α} {as : List (Access α)} {Valid : α → Prop}

theorem behind (h : c.Runs as Valid) (pos offset : Nat) :
    RecordLayout.Runs offset (fun b v => c.read b (offset + pos) v) (fun v b => c.write v b (offset + pos))
      (as.map (shift pos)) Valid := by
  constructor
  · intro b w hw
    rw [readAll_shift]
    exact (h _).read_eq hw
  · intro v b hv
    rw [writeAll_shift]
    exact (h _).write_eq hv

theorem each (h : c.Runs as Valid) (stride n pos offset : Nat) :
    RecordLayout.Runs offset (fun b vs => c.readEach b stride (offset + pos) vs)
      (fun vs b => c.writeEach stride (offset + pos) vs b) (each as stride pos n)
      (fun vs => vs.length = n ∧ ∀ v ∈ vs, Valid v) := by
  induction n generalizing pos with
  | zero =>
    constructor
    · rintro b vs ⟨hlen, -⟩
      rw [List.length_eq_zero_iff.mp hlen]
      rfl
    · rintro vs b ⟨hlen, -⟩
      rw [List.length_eq_zero_iff.mp hlen]
      rfl
  | succ n ih =>
    have hnext := ih (pos + stride)
    rw [← Nat.add_assoc] at hnext
    have hc := (h.behind pos offset).cons hnext
    constructor
    · rintro b (_ | ⟨w, ws⟩) ⟨hlen, hv⟩
      · cases hlen
      · rw [List.forall_mem_cons] at hv
        exact hc.read_eq (w := w :: ws) ⟨hv.1, Nat.succ.inj hlen, hv.2⟩
    · rintro (_ | ⟨v, vs⟩) b ⟨hlen, hv⟩
      · cases hlen
      · rw [List.forall_mem_cons] at hv
        exact hc.write_eq (v := v :: vs) ⟨hv.1, Nat.succ.inj hlen, hv.2⟩

end Codec.Runs

/-! ### Accesses one behind the other -/

/-- Accesses from one position to another, each of which ends where the next one starts. -/
def Adjoin : Nat → List (Access α) → Nat → Prop
  | start, [], stop => start = stop
  | start, a :: as, stop => a.first = start ∧ start ≤ a.last ∧ Adjoin a.last as stop

namespace Adjoin

variable {start stop offset : Nat} {as : List (Access α)} {b : Bytes} {v : α}

theorem le (h : Adjoin start as stop) : start ≤ stop := by
  induction as generalizing start with
  | nil => exact Nat.le_of_eq h
  | cons a as ih => exact h.2.1.trans (ih h.2.2)

theorem last_bounds (h : Adjoin start as stop) {a : Access α} (ha : a ∈ as) : start ≤ a.last ∧ a.last ≤ stop := by
  induction as generalizing start with
  | nil => cases ha
  | cons a' as ih =>
    obtain ⟨rfl, hle, hr⟩ := h
    rcases List.mem_cons.mp ha with rfl | ha
    · exact ⟨hle, hr.le⟩
    · exact ⟨hle.trans (ih hr ha).1, (ih hr ha).2⟩

theorem all_fit_iff (h : Adjoin start as stop) (hne : as ≠ []) (offset n : Nat) :
    (∀ a ∈ as, offset + a.last ≤ n) ↔ offset + stop ≤ n := by
  constructor
  · intro hall
    induction as generalizing start with
    | nil => exact absurd rfl hne
    | cons a as ih =>
      rw [List.forall_mem_cons] at hall
      rcases as with _ | ⟨a', as⟩
      · obtain ⟨-, -, rfl⟩ := h
        exact hall.1
      · exact ih h.2.2 (by simp) hall.2
  · intro hn a ha
    have := (h.last_bounds ha).2
    omega

/-- The accesses that fit into a buffer come first. -/
theorem exists_split (h : Adjoin start as stop) (offset n : Nat) :
    ∃ front rest mid, as = front ++ rest ∧ Adjoin start front mid ∧ (∀ a ∈ front, offset + a.last ≤ n) ∧
      (∀ a ∈ rest, n < offset + a.last) ∧ as.filter (fun a => offset + a.last ≤ n) = front := by
  induction as generalizing start with
  | nil => exact ⟨[], [], start, rfl, rfl, by simp, by simp, rfl⟩
  | cons a as ih =>
    obtain ⟨rfl, hle, hr⟩ := h
    by_cases ha : offset + a.last ≤ n
    · obtain ⟨front, rest, mid, rfl, hf, hfit, hshort, hfilter⟩ := ih hr
      refine ⟨a :: front, rest, mid, rfl, ⟨rfl, hle, hf⟩, List.forall_mem_cons.mpr ⟨ha, hfit⟩, hshort, ?_⟩
      rw [List.filter_cons_of_pos (by simpa using ha), hfilter]
    · -- whatever follows ends no earlier
      have hshort : ∀ a' ∈ a :: as, n < offset + a'.last := by
        intro a' ha'
        rcases List.mem_cons.mp ha' with rfl | ha'
        · omega
        · have := (hr.last_bounds ha').1
          omega
      refine ⟨[], a :: as, a.first, rfl, rfl, by simp, hshort, List.filter_eq_nil_iff.mpr fun a' ha' => ?_⟩
      simpa using hshort a' ha'

theorem mem_iff (h : Adjoin start as stop) (i : Nat) :
    start ≤ i ∧ i < stop ↔ ∃ a ∈ as, a.first ≤ i ∧ i < a.last := by
  induction as generalizing start with
  | nil =>
    obtain rfl : start = stop := h
    simp
  | cons a as ih =>
    obtain ⟨rfl, hle, hr⟩ := h
    have := hr.le
    simp only [List.mem_cons, exists_eq_or_imp, ← ih hr]
    omega

theorem length_stored (h : Adjoin start as stop) (hs : ∀ a ∈ as, (a.store v).length = a.last - a.first) :
    start + (as.flatMap fun a => a.store v).length = stop := by
  induction as generalizing start with
  | nil => exact h
  | cons a as ih =>
    obtain ⟨rfl, hle, hr⟩ := h
    rw [List.forall_mem_cons] at hs
    have := ih hr hs.2
    rw [List.flatMap_cons, List.length_append, hs.1]
    omega

theorem readAll_of_fit (h : ∀ a ∈ as, offset + a.last ≤ b.length) (rest : List (Access α)) (v : α) :
    readAll b offset (as ++ rest) v = readAll b offset rest (as.foldl (loadFrom b offset) v) := by
  induction as generalizing v with
  | nil => rfl
  | cons a as ih =>
    rw [List.forall_mem_cons] at h
    rw [List.cons_append, readAll, if_pos h.1, ih h.2]
    rfl

/-- Bytes that are stored one behind the other are stored together. -/
theorem writeAll_of_fit (h : Adjoin start as stop) (hf : ∀ a ∈ as, offset + a.last ≤ b.length)
    (hs : ∀ a ∈ as, (a.store v).length = a.last - a.first) (rest : List (Access α)) :
    writeAll v offset (as ++ rest) b =
      writeAll v offset rest (Scalar.splice b (offset + start) (as.flatMap fun a => a.store v)) := by
  induction as generalizing b start with
  | nil => rw [List.flatMap_nil, Scalar.splice_nil, List.nil_append]
  | cons a as ih =>
    have hstop := (h.all_fit_iff (by simp) offset b.length).mp hf
    obtain ⟨rfl, hle, hr⟩ := h
    rw [List.forall_mem_cons] at hf hs
    have hlen := hr.length_stored hs.2
    have hfirst : offset + a.first + (a.store v).length = offset + a.last := by omega
    have hb : (a.storeInto v offset b).length = b.length := Scalar.length_splice (by omega)
    rw [List.cons_append, writeAll, if_pos hf.1, ih hr (by rw [hb]; exact hf.2) hs.2, List.flatMap_cons, storeInto,
      ← hfirst, Scalar.splice_splice_append _ _ _ _ (by omega)]

/-- Positions of 64 bits change nothing: the first access that would wrap around is not done. -/
theorem readWords_eq {word : UInt64} (h : Adjoin start as stop) (hb : b.length < 2 ^ 64) (hstop : stop < 2 ^ 64)
    (hstart : word.toNat + start < 2 ^ 64) (v : α) : readWords b word as v = readAll b word.toNat as v := by
  -- the next access starts without wrapping around, since the one before it did fit
  induction as generalizing start v with
  | nil => rfl
  | cons a as ih =>
    obtain ⟨rfl, hle, hr⟩ := h
    have hrange := Bytes.hasRange_iff hb hstart hle (by have := hr.le; omega)
    simp only [readWords, readAll, hrange]
    split
    · next hfit =>
      rw [toNat_add_ofNat hstart, toNat_add_ofNat (by omega), Nat.add_sub_add_left, ih hr (by omega)]
      rfl
    · rfl

theorem writeWords_eq {word : UInt64} (h : Adjoin start as stop) (hb : b.length < 2 ^ 64) (hstop : stop < 2 ^ 64)
    (hstart : word.toNat + start < 2 ^ 64) (hs : ∀ a ∈ as, (a.store v).length = a.last - a.first) :
    writeWords v word as b = writeAll v word.toNat as b := by
  induction as generalizing start b with
  | nil => rfl
  | cons a as ih =>
    obtain ⟨rfl, hle, hr⟩ := h
    rw [List.forall_mem_cons] at hs
    have hrange := Bytes.hasRange_iff hb hstart hle (by have := hr.le; omega)
    simp only [writeWords, writeAll, hrange]
    split
    · next hfit =>
      rw [toNat_add_ofNat hstart, ih hr _ (by omega) hs.2]
      · rfl
      · rwa [Scalar.length_splice (by omega)]
    · rfl

/-- Of accesses one behind the other, those that fit are done and no others. -/
theorem readAll_eq (h : Adjoin start as stop) (hne : as ≠ []) (b : Bytes) (offset : Nat) (v : α) :
    readAll b offset as v = Attempt.ended (offset + stop ≤ b.length)
      ((as.filter fun a => offset + a.last ≤ b.length).foldl (loadFrom b offset) v) := by
  have hstop := h.all_fit_iff hne offset b.length
  obtain ⟨front, rest, mid, has, -, hfit, hshort, hfilter⟩ := h.exists_split offset b.length
  rw [hfilter, has, readAll_of_fit hfit, Attempt.ended]
  rcases rest with _ | ⟨a, rest⟩
  · rw [if_pos (hstop.mp (by rw [has, List.append_nil]; exact hfit))]
    rfl
  · have ha : ¬offset + a.last ≤ b.length := Nat.not_le.mpr (hshort a List.mem_cons_self)
    rw [readAll, if_neg ha, if_neg fun hall => ha (hstop.mpr hall a (by simp [has]))]

theorem exists_writeAll_eq (h : Adjoin start as stop) (hne : as ≠ [])
    (hs : ∀ a ∈ as, (a.store v).length = a.last - a.first) (b : Bytes) (offset : Nat) :
    ∃ b', writeAll v offset as b = Attempt.ended (offset + stop ≤ b.length) b' ∧ b'.length = b.length ∧
      (∀ a ∈ as, offset + a.last ≤ b.length → ∀ i, offset + a.first ≤ i → i < offset + a.last →
        b'[i]? = (as.flatMap fun a => a.store v)[i - (offset + start)]?) ∧
      ∀ i, (∀ a ∈ as, offset + a.last ≤ b.length → i < offset + a.first ∨ offset + a.last ≤ i) → b'[i]? = b[i]? := by
  have hstop := h.all_fit_iff hne offset b.length
  obtain ⟨front, rest, mid, rfl, hf, hfit, hshort, -⟩ := h.exists_split offset b.length
  have hs' : ∀ a ∈ front, (a.store v).length = a.last - a.first := fun a ha => hs a (List.mem_append_left _ ha)
  have hlen := hf.length_stored hs'
  generalize hstored : (front.flatMap fun a => a.store v) = stored at hlen
  have hroom : front ≠ [] → offset + start + stored.length ≤ b.length := by
    intro hne
    have := (hf.all_fit_iff hne offset b.length).mp hfit
    omega
  have hlength : (Scalar.splice b (offset + start) stored).length = b.length := by
    rcases front with _ | ⟨a, front⟩
    · rw [← hstored, List.flatMap_nil, Scalar.splice_nil]
    · exact Scalar.length_splice (hroom (by simp))
  refine ⟨Scalar.splice b (offset + start) stored, ?_, hlength, ?_, ?_⟩
  · rw [hf.writeAll_of_fit hfit hs', hstored, Attempt.ended]
    rcases rest with _ | ⟨a, rest⟩
    · rw [if_pos (hstop.mp (by rwa [List.append_nil]))]
      rfl
    · have ha : ¬offset + a.last ≤ b.length := Nat.not_le.mpr (hshort a List.mem_cons_self)
      rw [writeAll, hlength, if_neg ha, if_neg fun hall => ha (hstop.mpr hall a (by simp))]
  · intro a ha hfits i hfirst hlast
    have hmem : a ∈ front := by
      rcases List.mem_append.mp ha with ha | ha
      · exact ha
      · exact absurd hfits (Nat.not_le.mpr (hshort a ha))
    obtain ⟨hi, hi'⟩ := (hf.mem_iff (i - offset)).mpr ⟨a, hmem, by omega, by omega⟩
    rw [Scalar.getElem?_splice (hroom (List.ne_nil_of_mem hmem)), if_pos (by omega), List.flatMap_append, hstored,
      List.getElem?_append_left (by omega)]
  · intro i hi
    rcases front with _ | ⟨a, front⟩
    · rw [← hstored, List.flatMap_nil, Scalar.splice_nil]
    · rw [Scalar.getElem?_splice (hroom (by simp)), if_neg]
      intro hin
      obtain ⟨a', ha', hfirst, hlast⟩ := (hf.mem_iff (i - offset)).mp (by omega)
      have := hi a' (List.mem_append_left _ ha') (hfit a' ha')
      omega

end Adjoin

end RecordLayout
