import RecordLayout.Binary.Codec
import RecordLayout.Proofs.BigEndian

/-!
# Slots of a buffer

A slot is the part of a buffer between two positions, with a way to read a value from it and to write
one into it. `Store` collects what makes it keep values: writing leaves all other bytes alone, reading
gives back what was written, and writing back what was read changes nothing. That alone does not let two
stores stand beside each other, since what is read may still depend on bytes outside; in a `Slot` it does
not. Slots that follow each other form a slot for a list of values (`Slot.cons`); arrays and records are
built from that. `Covers` says that no byte is left as it was, and is built in the same way. A codec is
lawful if it is a slot at every offset.
-/

namespace RecordLayout

/-- The buffers differ at most between two positions. -/
structure SameOutside (first last : Nat) (b b' : Bytes) : Prop where
  length_eq : b'.length = b.length
  getElem?_eq : ∀ i, i < first ∨ last ≤ i → b'[i]? = b[i]?

/-- The buffers agree between two positions. -/
def SameInside (first last : Nat) (b b' : Bytes) : Prop := ∀ i, first ≤ i → i < last → b'[i]? = b[i]?

namespace SameOutside

variable {first mid last : Nat} {b b' b'' : Bytes}

theorem refl (b : Bytes) : SameOutside first last b b := ⟨rfl, fun _ _ => rfl⟩

theorem trans (h : SameOutside first last b b') (h' : SameOutside first last b' b'') :
    SameOutside first last b b'' :=
  ⟨h'.length_eq.trans h.length_eq, fun i hi => (h'.getElem?_eq i hi).trans (h.getElem?_eq i hi)⟩

theorem mono {first' last' : Nat} (hf : first' ≤ first) (hl : last ≤ last')
    (h : SameOutside first last b b') : SameOutside first' last' b b' :=
  ⟨h.length_eq, fun i hi => h.getElem?_eq i (by omega)⟩

theorem eq_of_inside (h : SameOutside first last b b') (hi : SameInside first last b b') : b' = b := by
  apply List.ext_getElem?
  intro i
  by_cases ho : i < first ∨ last ≤ i
  · exact h.getElem?_eq i ho
  · exact hi i (by omega) (by omega)

theorem inside (h : SameOutside first last b b') {first' last' : Nat}
    (hd : last' ≤ first ∨ last ≤ first') : SameInside first' last' b b' :=
  fun i h₁ h₂ => h.getElem?_eq i (by omega)

end SameOutside

variable {α β : Type}

@[simp] theorem Attempt.map_id (a : Attempt α) : a.map id = a := by cases a <;> rfl

/-- Reading and writing between two positions of a buffer keeps values. -/
structure Store (read : Bytes → α → Attempt α) (write : α → Bytes → Attempt Bytes) (first last : Nat)
    (Valid : α → Prop) : Prop where
  /-- Writing succeeds and changes no byte outside. -/
  write_ok : ∀ {v b}, Valid v → last ≤ b.length → ∃ b', write v b = .ok b' ∧ SameOutside first last b b'
  read_ok : ∀ {w b}, Valid w → last ≤ b.length → ∃ v, read b w = .ok v ∧ Valid v
  /-- Reading what was written gives it back, whatever was read before. -/
  read_write : ∀ {v w b b'}, Valid v → Valid w → last ≤ b.length → write v b = .ok b' →
    read b' w = .ok v
  /-- Writing what was read changes nothing. -/
  write_read : ∀ {v w b}, Valid w → last ≤ b.length → read b w = .ok v → write v b = .ok b

/-- A store that is read by itself. -/
structure Slot (read : Bytes → α → Attempt α) (write : α → Bytes → Attempt Bytes) (first last : Nat)
    (Valid : α → Prop) : Prop extends Store read write first last Valid where
  /-- What is read depends on no byte outside. -/
  read_local : ∀ {w b b'}, Valid w → last ≤ b.length → b'.length = b.length → SameInside first last b b' →
    read b' w = read b w

/-- Every byte between two positions is written: what stood there before does not show. -/
def Covers (write : α → Bytes → Attempt Bytes) (first last : Nat) (Valid : α → Prop) : Prop :=
  ∀ v b₁ b₂ b₁' b₂', Valid v → last ≤ b₁.length → last ≤ b₂.length →
    write v b₁ = .ok b₁' → write v b₂ = .ok b₂' → SameInside first last b₁' b₂'

/-- The values of one type, as they are read and written, stand for those of another. -/
structure Guise (e : α → β) (last : Nat) (read : Bytes → α → Attempt α) (write : α → Bytes → Attempt Bytes)
    (Valid : α → Prop) (read' : Bytes → β → Attempt β) (write' : β → Bytes → Attempt Bytes)
    (Valid' : β → Prop) : Prop where
  valid_iff : ∀ x, Valid' x ↔ ∃ v, Valid v ∧ e v = x
  read_eq : ∀ b w, Valid w → last ≤ b.length → read' b (e w) = (read b w).map e
  write_eq : ∀ v b, Valid v → last ≤ b.length → write' (e v) b = write v b

section Stores

variable {read read' : Bytes → α → Attempt α} {write write' : α → Bytes → Attempt Bytes}
variable {first mid last : Nat} {Valid Valid' : α → Prop}

/-- A store that writes all of its bytes is read by itself. -/
theorem Store.slot (h : Store read write first last Valid) (hc : Covers write first last Valid) :
    Slot read write first last Valid := by
  refine ⟨h, fun {w b b'} hw hl hlen hs => ?_⟩
  obtain ⟨v, hr, hv⟩ := h.read_ok hw hl
  have hb := h.write_read hw hl hr
  obtain ⟨b'', hb'', ho⟩ := h.write_ok hv (hlen ▸ hl)
  -- writing `v` into `b'` restores the bytes of `b`, which `b'` has already
  have hin : SameInside first last b' b'' := fun i h₁ h₂ =>
    (hc _ _ _ _ _ hv hl (hlen ▸ hl) hb hb'' i h₁ h₂).trans (hs i h₁ h₂).symm
  rw [ho.eq_of_inside hin] at hb''
  rw [hr, h.read_write hv hw (hlen ▸ hl) hb'']

theorem Guise.same (hv : ∀ v, Valid' v ↔ Valid v) (hr : ∀ b w, Valid w → last ≤ b.length → read' b w = read b w)
    (hw : ∀ v b, Valid v → last ≤ b.length → write' v b = write v b) :
    Guise id last read write Valid read' write' Valid' := by
  refine ⟨fun v => ?_, fun b w hv hl => ?_, hw⟩
  · rw [hv v]
    exact ⟨fun h => ⟨v, h, rfl⟩, fun ⟨_, h, he⟩ => he ▸ h⟩
  · rw [Attempt.map_id]
    exact hr b w hv hl

theorem Slot.map {e : α → β} {read' : Bytes → β → Attempt β} {write' : β → Bytes → Attempt Bytes}
    {Valid' : β → Prop} (h : Slot read write first last Valid)
    (g : Guise e last read write Valid read' write' Valid') : Slot read' write' first last Valid' := by
  constructor
  · constructor
    · intro x b hx hl
      obtain ⟨v, hv, rfl⟩ := (g.valid_iff x).mp hx
      rw [g.write_eq v b hv hl]
      exact h.write_ok hv hl
    · intro x b hx hl
      obtain ⟨w, hv, rfl⟩ := (g.valid_iff x).mp hx
      obtain ⟨v, hv', hvv⟩ := h.read_ok hv hl
      exact ⟨e v, by rw [g.read_eq b w hv hl, hv']; rfl, (g.valid_iff _).mpr ⟨v, hvv, rfl⟩⟩
    · intro x y b b' hx hy hl hb'
      obtain ⟨v, hv, rfl⟩ := (g.valid_iff x).mp hx
      obtain ⟨w, hv', rfl⟩ := (g.valid_iff y).mp hy
      rw [g.write_eq v b hv hl] at hb'
      obtain ⟨b'', hb'', ho⟩ := h.write_ok hv hl
      rw [hb''] at hb'
      cases hb'
      rw [g.read_eq _ w hv' (ho.length_eq ▸ hl), h.read_write hv hv' hl hb'']
      rfl
    · intro x y b hy hl hx
      obtain ⟨w, hv, rfl⟩ := (g.valid_iff y).mp hy
      obtain ⟨v, hv', hvv⟩ := h.read_ok hv hl
      rw [g.read_eq b w hv hl, hv'] at hx
      cases hx
      rw [g.write_eq v b hvv hl]
      exact h.write_read hv hl hv'
  · intro x b b' hx hl hlen hs
    obtain ⟨w, hv, rfl⟩ := (g.valid_iff x).mp hx
    rw [g.read_eq b w hv hl, g.read_eq b' w hv (hlen ▸ hl), h.read_local hv hl hlen hs]

theorem Covers.map {e : α → β} {read' : Bytes → β → Attempt β} {write' : β → Bytes → Attempt Bytes}
    {Valid' : β → Prop} (h : Covers write first last Valid)
    (g : Guise e last read write Valid read' write' Valid') : Covers write' first last Valid' := by
  intro x b₁ b₂ b₁' b₂' hx h₁ h₂ he₁ he₂
  obtain ⟨v, hv, rfl⟩ := (g.valid_iff x).mp hx
  rw [g.write_eq v _ hv h₁] at he₁
  rw [g.write_eq v _ hv h₂] at he₂
  exact h v _ _ _ _ hv h₁ h₂ he₁ he₂

theorem Slot.nil (first : Nat) :
    Slot (fun _ vs => .ok vs) (fun _ b => .ok b) first first (fun vs : List α => vs = []) where
  write_ok _ _ := ⟨_, rfl, .refl _⟩
  read_ok hw _ := ⟨_, rfl, hw⟩
  read_write hv hw _ _ := by rw [hv, hw]
  write_read _ _ _ := rfl
  read_local _ _ _ _ := rfl

theorem Covers.nil (first : Nat) : Covers (fun _ b => .ok b) first first (fun vs : List α => vs = []) := by
  intro v b₁ b₂ b₁' b₂' _ _ _ _ _ i h₁ h₂
  omega

end Stores

/-- Reads the first value of a list and then the others; what was read before a stop stays. -/
def readCons (r₁ : Bytes → α → Attempt α) (r₂ : Bytes → List α → Attempt (List α)) (b : Bytes) :
    List α → Attempt (List α)
  | [] => .ok []
  | v :: vs =>
    match r₁ b v with
    | .error v' => .error (v' :: vs)
    | .ok v' => (r₂ b vs).map (v' :: ·)

def writeCons (w₁ : α → Bytes → Attempt Bytes) (w₂ : List α → Bytes → Attempt Bytes) :
    List α → Bytes → Attempt Bytes
  | [], b => .ok b
  | v :: vs, b =>
    match w₁ v b with
    | .error b' => .error b'
    | .ok b' => w₂ vs b'

def ValidCons (V₁ : α → Prop) (V₂ : List α → Prop) : List α → Prop
  | [] => False
  | v :: vs => V₁ v ∧ V₂ vs

section Cons

variable {r₁ : Bytes → α → Attempt α} {r₂ : Bytes → List α → Attempt (List α)}
variable {w₁ : α → Bytes → Attempt Bytes} {w₂ : List α → Bytes → Attempt Bytes}
variable {V₁ : α → Prop} {V₂ : List α → Prop} {first mid last : Nat}

theorem readCons_ok {b : Bytes} {w v : α} {ws vs : List α} (h₁ : r₁ b w = .ok v) (h₂ : r₂ b ws = .ok vs) :
    readCons r₁ r₂ b (w :: ws) = .ok (v :: vs) := by
  rw [readCons, h₁, h₂]
  rfl

theorem writeCons_ok {b b₁ b₂ : Bytes} {v : α} {vs : List α} (h₁ : w₁ v b = .ok b₁)
    (h₂ : w₂ vs b₁ = .ok b₂) : writeCons w₁ w₂ (v :: vs) b = .ok b₂ := by
  rw [writeCons, h₁]
  exact h₂

theorem Store.exists_writes (h₁ : Store r₁ w₁ first mid V₁) (h₂ : Store r₂ w₂ mid last V₂) (hl : mid ≤ last)
    {v : α} {vs : List α} {b : Bytes} (hv : V₁ v) (hvs : V₂ vs) (hb : last ≤ b.length) :
    ∃ b₁ b₂, w₁ v b = .ok b₁ ∧ w₂ vs b₁ = .ok b₂ ∧ SameOutside first mid b b₁ ∧
      SameOutside mid last b₁ b₂ := by
  obtain ⟨b₁, hb₁, ho₁⟩ := h₁.write_ok hv (hl.trans hb)
  obtain ⟨b₂, hb₂, ho₂⟩ := h₂.write_ok hvs (ho₁.length_eq ▸ hb)
  exact ⟨b₁, b₂, hb₁, hb₂, ho₁, ho₂⟩

theorem Slot.cons (h₁ : Slot r₁ w₁ first mid V₁) (h₂ : Slot r₂ w₂ mid last V₂) (hf : first ≤ mid)
    (hl : mid ≤ last) : Slot (readCons r₁ r₂) (writeCons w₁ w₂) first last (ValidCons V₁ V₂) := by
  constructor
  · constructor
    · rintro (_ | ⟨v, vs⟩) b hv hb
      · exact hv.elim
      · obtain ⟨b₁, b₂, hb₁, hb₂, ho₁, ho₂⟩ := h₁.exists_writes h₂.toStore hl hv.1 hv.2 hb
        exact ⟨b₂, writeCons_ok hb₁ hb₂, (ho₁.mono le_rfl hl).trans (ho₂.mono hf le_rfl)⟩
    · rintro (_ | ⟨w, ws⟩) b hw hb
      · exact hw.elim
      · obtain ⟨v, hr₁, hv⟩ := h₁.read_ok hw.1 (hl.trans hb)
        obtain ⟨vs, hr₂, hvs⟩ := h₂.read_ok hw.2 hb
        exact ⟨v :: vs, readCons_ok hr₁ hr₂, hv, hvs⟩
    · rintro (_ | ⟨v, vs⟩) (_ | ⟨w, ws⟩) b b' hv hw hb he
      · exact hv.elim
      · exact hv.elim
      · exact hw.elim
      · obtain ⟨b₁, b₂, hb₁, hb₂, ho₁, ho₂⟩ := h₁.exists_writes h₂.toStore hl hv.1 hv.2 hb
        rw [writeCons_ok hb₁ hb₂] at he
        cases he
        have hlen : mid ≤ b₁.length := ho₁.length_eq ▸ hl.trans hb
        -- the second write did not touch the bytes that the first value is read from
        refine readCons_ok ?_ (h₂.read_write hv.2 hw.2 (ho₁.length_eq ▸ hb) hb₂)
        rw [h₁.read_local hw.1 hlen ho₂.length_eq (ho₂.inside (.inl le_rfl))]
        exact h₁.read_write hv.1 hw.1 (hl.trans hb) hb₁
    · rintro x (_ | ⟨w, ws⟩) b hw hb he
      · exact hw.elim
      · obtain ⟨v, hr₁, hv⟩ := h₁.read_ok hw.1 (hl.trans hb)
        obtain ⟨vs, hr₂, hvs⟩ := h₂.read_ok hw.2 hb
        rw [readCons_ok hr₁ hr₂] at he
        cases he
        exact writeCons_ok (h₁.write_read hw.1 (hl.trans hb) hr₁) (h₂.write_read hw.2 hb hr₂)
  · rintro (_ | ⟨w, ws⟩) b b' hw hb hlen hs
    · exact hw.elim
    · have hr₁ := h₁.read_local hw.1 (hl.trans hb) hlen fun i hi₁ hi₂ => hs i hi₁ (hi₂.trans_le hl)
      have hr₂ := h₂.read_local hw.2 hb hlen fun i hi₁ hi₂ => hs i (hf.trans hi₁) hi₂
      rw [readCons, readCons, hr₁, hr₂]

theorem Covers.cons (h₁ : Store r₁ w₁ first mid V₁) (h₂ : Store r₂ w₂ mid last V₂) (hc₁ : Covers w₁ first mid V₁)
    (hc₂ : Covers w₂ mid last V₂) (hl : mid ≤ last) :
    Covers (writeCons w₁ w₂) first last (ValidCons V₁ V₂) := by
  rintro (_ | ⟨v, vs⟩) b c b' c' hv hb hc heb hec
  · exact hv.elim
  · obtain ⟨b₁, b₂, hb₁, hb₂, hob₁, hob⟩ := h₁.exists_writes h₂ hl hv.1 hv.2 hb
    obtain ⟨c₁, c₂, hc₁', hc₂', hoc₁, hoc⟩ := h₁.exists_writes h₂ hl hv.1 hv.2 hc
    rw [writeCons_ok hb₁ hb₂] at heb
    rw [writeCons_ok hc₁' hc₂'] at hec
    cases heb
    cases hec
    intro i hi₁ hi₂
    by_cases hm : i < mid
    · rw [hoc.getElem?_eq i (.inl hm), hob.getElem?_eq i (.inl hm)]
      exact hc₁ v _ _ _ _ hv.1 (hl.trans hb) (hl.trans hc) hb₁ hc₁' i hi₁ hm
    · exact hc₂ vs _ _ _ _ hv.2 (hob₁.length_eq ▸ hb) (hoc₁.length_eq ▸ hc) hb₂ hc₂' i (by omega) hi₂

end Cons

namespace Codec

variable (c : Codec α) (size : Nat) (Valid : α → Prop)

/-- A codec keeps its valid values in `size` bytes, at every offset. -/
def Keeps : Prop :=
  ∀ offset, Store (fun b v => c.read b offset v) (fun v b => c.write v b offset) offset (offset + size) Valid

/-- A codec keeps its valid values in `size` bytes, at every offset, and looks at no others. -/
def Lawful : Prop :=
  ∀ offset, Slot (fun b v => c.read b offset v) (fun v b => c.write v b offset) offset (offset + size) Valid

/-- Writing a valid value fills `size` bytes, at every offset. -/
def Full : Prop := ∀ offset, Covers (fun v b => c.write v b offset) offset (offset + size) Valid

/-! ### Values behind each other, each as far from the next as it is long -/

/-- Lists of `n` values. -/
def Row (n : Nat) (vs : List α) : Prop := vs.length = n ∧ ∀ v ∈ vs, Valid v

theorem guise_each_zero (pos : Nat) :
    Guise id pos (fun _ vs => .ok vs) (fun _ b => .ok b) (fun vs : List α => vs = [])
      (fun b vs => c.readEach b size pos vs) (fun vs b => c.writeEach size pos vs b) (Row Valid 0) := by
  refine .same (fun vs => ⟨fun hv => List.length_eq_zero_iff.mp hv.1, ?_⟩) ?_ ?_
  · rintro rfl
    exact ⟨rfl, by simp⟩
  · rintro b _ rfl -
    rfl
  · rintro _ b rfl -
    rfl

theorem guise_each_succ (n pos last : Nat) :
    Guise id last (readCons (fun b v => c.read b pos v) fun b vs => c.readEach b size (pos + size) vs)
      (writeCons (fun v b => c.write v b pos) fun vs b => c.writeEach size (pos + size) vs b)
      (ValidCons Valid (Row Valid n))
      (fun b vs => c.readEach b size pos vs) (fun vs b => c.writeEach size pos vs b) (Row Valid (n + 1)) := by
  refine .same ?_ ?_ ?_
  · rintro (_ | ⟨v, vs⟩)
    · simp [ValidCons, Row]
    · simp only [ValidCons, Row, List.length_cons, Nat.add_right_cancel_iff, List.forall_mem_cons]
      tauto
  · rintro b (_ | ⟨w, ws⟩) hw -
    · exact hw.elim
    · rfl
  · rintro (_ | ⟨v, vs⟩) b hv -
    · exact hv.elim
    · rfl

variable {c size Valid}

theorem add_mul_succ (pos n : Nat) : pos + size * (n + 1) = pos + size + size * n := by
  rw [Nat.mul_add_one]
  omega

theorem Lawful.each (h : c.Lawful size Valid) (n pos : Nat) :
    Slot (fun b vs => c.readEach b size pos vs) (fun vs b => c.writeEach size pos vs b)
      pos (pos + size * n) (Row Valid n) := by
  induction n generalizing pos with
  | zero => exact (Slot.nil pos).map (c.guise_each_zero size Valid pos)
  | succ n ih =>
    rw [add_mul_succ]
    have hcons := (h pos).cons (ih (pos + size)) (Nat.le_add_right _ _) (Nat.le_add_right _ _)
    exact hcons.map (c.guise_each_succ size Valid n pos _)

theorem Full.each (hf : c.Full size Valid) (h : c.Lawful size Valid) (n pos : Nat) :
    Covers (fun vs b => c.writeEach size pos vs b) pos (pos + size * n) (Row Valid n) := by
  induction n generalizing pos with
  | zero => exact (Covers.nil pos).map (c.guise_each_zero size Valid pos)
  | succ n ih =>
    rw [add_mul_succ]
    have hcons := Covers.cons (h pos).toStore (h.each n (pos + size)).toStore (hf pos) (ih (pos + size))
      (Nat.le_add_right _ _)
    exact hcons.map (c.guise_each_succ size Valid n pos _)

end Codec

variable {ρ : Type}

/-- The numbers of a scalar type, as elements. -/
def Scalar.Holds (t : Scalar) (e : Element ρ) : Prop := ∃ n, t.InRange n ∧ .number n = e

/-- The records with a property, as elements. -/
def Element.Holds (valid : ρ → Prop) (e : Element ρ) : Prop := ∃ r, valid r ∧ .record r = e

namespace Scalar

theorem write_codec {t : Scalar} {b : Bytes} {offset : Nat} (n : Int) (hl : offset + t.width ≤ b.length) :
    t.codec.write (.number n : Element ρ) b offset = .ok (splice b offset (t.encode n)) :=
  write_of_le hl n

theorem getElem?_splice_encode {t : Scalar} {b : Bytes} {offset : Nat} (n : Int)
    (hl : offset + t.width ≤ b.length) (i : Nat) :
    (splice b offset (t.encode n))[i]? =
      if offset ≤ i ∧ i < offset + t.width then (t.encode n)[i - offset]? else b[i]? := by
  rw [getElem?_splice (by rwa [length_encode]), length_encode]

theorem full_codec (t : Scalar) : (t.codec (ρ := ρ)).Full t.width t.Holds := by
  rintro offset _ b₁ b₂ b₁' b₂' ⟨n, hn, rfl⟩ h₁ h₂ he₁ he₂ i hi₁ hi₂
  cases (write_codec n h₁).symm.trans he₁
  cases (write_codec n h₂).symm.trans he₂
  rw [getElem?_splice_encode n h₁, getElem?_splice_encode n h₂, if_pos ⟨hi₁, hi₂⟩, if_pos ⟨hi₁, hi₂⟩]

theorem lawful_codec (t : Scalar) : (t.codec (ρ := ρ)).Lawful t.width t.Holds := by
  intro offset
  refine Store.slot ?_ (t.full_codec offset)
  constructor
  · rintro _ b ⟨n, hn, rfl⟩ hl
    refine ⟨_, write_codec n hl, length_splice (by rwa [length_encode]), fun i hi => ?_⟩
    rw [getElem?_splice_encode n hl, if_neg (by omega)]
  · intro w b _ hl
    exact ⟨_, by simp only [codec, read?_of_le hl], _, inRange_decode (length_slice hl), rfl⟩
  · rintro _ w b b' ⟨n, hn, rfl⟩ - hl he
    rw [write_codec n hl] at he
    cases he
    simp only [codec, read?_splice hl hn]
  · intro v w b _ hl he
    simp only [codec, read?_of_le hl] at he
    cases he
    exact write_decode hl

end Scalar

namespace Codec

variable {c : Codec ρ} {size : Nat} {valid : ρ → Prop}

theorem guise_nested (offset last : Nat) :
    Guise Element.record last (fun b v => c.read b offset v) (fun v b => c.write v b offset) valid
      (fun b e => c.nested.read b offset e) (fun e b => c.nested.write e b offset) (Element.Holds valid) :=
  ⟨fun _ => Iff.rfl, fun _ _ _ _ => rfl, fun _ _ _ _ => rfl⟩

theorem Lawful.nested (h : c.Lawful size valid) : c.nested.Lawful size (Element.Holds valid) :=
  fun offset => (h offset).map (guise_nested offset _)

theorem Full.nested (h : c.Full size valid) : c.nested.Full size (Element.Holds valid) :=
  fun offset => (h offset).map (guise_nested offset _)

end Codec

/-! ### Arrays of bytes -/

section ByteArrays

open Code Scalar

theorem decode_u8 (x : UInt8) : u8.decode [x] = x.toNat := by
  simp [decode, isSigned, ofBigEndian]

theorem encode_u8 (n : Int) : u8.encode n = [elementByte (.number n : Element ρ)] := by
  simp [encode, bigEndian, width, modulus, elementByte]

theorem read_u8 (b : Bytes) (pos : Nat) (e : Element ρ) :
    u8.codec.read b pos e = match b[pos]? with
      | some x => .ok (.number x.toNat)
      | none => .error e := by
  by_cases hpos : pos < b.length
  · have hone : (b.drop pos).take 1 = [b[pos]] := by
      rw [List.drop_eq_getElem_cons hpos, List.take_succ_cons, List.take_zero]
    simp only [codec, read?, width, Nat.add_one_le_iff, if_pos hpos, hone, List.getElem?_eq_getElem hpos, decode_u8]
  · simp only [codec, read?, width, Nat.add_one_le_iff, if_neg hpos,
      List.getElem?_eq_none (Nat.not_lt.mp hpos)]

theorem readEach_u8 {b : Bytes} {pos : Nat} (es : List (Element ρ)) (h : pos + es.length ≤ b.length) :
    u8.codec.readEach b 1 pos es = .ok (byteElements ((b.drop pos).take es.length)) := by
  induction es generalizing pos with
  | nil => simp [Codec.readEach, byteElements]
  | cons e es ih =>
    have hpos : pos < b.length := by simp at h; omega
    rw [Codec.readEach, read_u8, List.getElem?_eq_getElem hpos]
    dsimp only
    rw [ih (by simp at h; omega), List.drop_eq_getElem_cons hpos, List.length_cons, List.take_succ_cons]
    rfl

theorem writeEach_u8 {b : Bytes} {pos : Nat} (es : List (Element ρ)) (hv : ∀ e ∈ es, u8.Holds e)
    (h : pos + es.length ≤ b.length) :
    u8.codec.writeEach 1 pos es b = .ok (splice b pos (es.map elementByte)) := by
  induction es generalizing pos b with
  | nil => simp [Codec.writeEach, splice]
  | cons e es ih =>
    obtain ⟨n, -, rfl⟩ := hv e List.mem_cons_self
    rw [List.length_cons] at h
    have hwrite : u8.codec.write (.number n : Element ρ) b pos =
        .ok (splice b pos [elementByte (ρ := ρ) (.number n)]) := by
      simp only [codec, write, width, if_pos (show pos + 1 ≤ b.length by omega), encode_u8 (ρ := ρ)]
    rw [Codec.writeEach, hwrite]
    dsimp only
    rw [ih (fun e he => hv e (List.mem_cons_of_mem _ he)) (by rw [length_splice (by simp; omega)]; omega),
      List.map_cons]
    exact congrArg Except.ok (splice_splice_append b pos [_] _ (by simp; omega))

end ByteArrays

end RecordLayout
