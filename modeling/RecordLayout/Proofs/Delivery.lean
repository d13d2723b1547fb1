import RecordLayout.Proofs.ConversionRun
import RecordLayout.Proofs.Independence
import RecordLayout.Proofs.TextLines

/-!
# Delivery of record code

A sink need not take all that it is offered at once: what is left is offered again, until nothing is left or
the sink takes nothing (`Sink.Offers`). The pieces make no difference. Each offer leaves the outcome of writing
what is left as it was (`Sink.run_write_piece`), so that in the end the sink has the first bytes of the text, as
many as it has room for, in their order and each once. A conversion writes to its sink behind its reading, which
knows nothing of the sink.
-/

namespace RecordLayout

namespace Sink

/-- For how many of `count` bytes a sink has room. -/
def fitting (s : Sink) (count : Nat) : Nat :=
  match s.limit with
  | .full room _ => min (room - s.accepted.length) count
  | _ => count

def accept (s : Sink) (text : Bytes) : Sink := { s with accepted := s.accepted ++ text }

/-- One offer of bytes. A sink takes any number of those it has room for. Without room it fails, or it takes
none. -/
inductive Offer (s : Sink) (text : Bytes) : Except IoFault Nat → Prop
  | taken {n : Nat} (hn : n ≤ s.fitting text.length) (hpos : 0 < n) : Offer s text (.ok n)
  | refused {room : Nat} {fault : IoFault} (hfull : s.fitting text.length = 0)
      (hlimit : s.limit = .full room fault) : Offer s text (.error fault)
  | ignored {room : Nat} (hfull : s.fitting text.length = 0)
      (hlimit : s.limit = .full room .writeZero) : Offer s text (.ok 0)

/-- Offers of what is left of a text, one after the other. -/
inductive Offers : Sink → Bytes → Except IoFault Unit → Sink → Prop
  | done (s : Sink) : Offers s [] (.ok ()) s
  | taken {s s' : Sink} {text : Bytes} {n : Nat} {r : Except IoFault Unit} (ht : text ≠ [])
      (ho : s.Offer text (.ok n)) (hpos : 0 < n)
      (hrest : Offers (s.accept (text.take n)) (text.drop n) r s') : Offers s text r s'
  | ignored {s : Sink} {text : Bytes} (ht : text ≠ []) (ho : s.Offer text (.ok 0)) :
      Offers s text (.error .writeZero) s
  | refused {s : Sink} {text : Bytes} {fault : IoFault} (ht : text ≠ []) (ho : s.Offer text (.error fault)) :
      Offers s text (.error fault) s

/-- Offers of a text, and flushing if all of it was taken. -/
inductive Delivers (s : Sink) (text : Bytes) : Except IoFault Unit → Sink → Prop
  | failed {s' : Sink} {fault : IoFault} (h : Offers s text (.error fault) s') : Delivers s text (.error fault) s'
  | flushed {s' : Sink} {r : Except IoFault Unit} (h : Offers s text (.ok ()) s')
      (hr : (flush.run s').result = r) : Delivers s text r s'

variable {s s' : Sink} {text : Bytes} {n room : Nat} {fault : IoFault} {r : Except IoFault Unit}

theorem fitting_le (s : Sink) (count : Nat) : s.fitting count ≤ count := by
  unfold fitting
  split <;> omega

theorem exists_limit_of_fitting_lt {count : Nat} (h : s.fitting count < count) :
    ∃ room fault, s.limit = .full room fault := by
  unfold fitting at h
  split at h
  · exact ⟨_, _, by assumption⟩
  · omega

theorem run_write (s : Sink) (text : Bytes) :
    (write text).run s =
      ⟨(s.writeFault? text).elim (.ok ()) .error, s.accept (text.take (s.fitting text.length)), []⟩ := by
  have htakes : s.takes text = text.take (s.fitting text.length) := by
    cases h : s.limit <;> simp only [takes, fitting, h]
    case full => exact List.take_eq_take_min
    all_goals exact List.take_length.symm
  cases h : s.writeFault? text <;> simp [write, Action.run, accept, h, htakes]

theorem fitting_accept (hn : n ≤ s.fitting text.length) :
    (s.accept (text.take n)).fitting (text.drop n).length = s.fitting text.length - n := by
  have hlen := s.fitting_le text.length
  simp only [fitting, accept] at hn hlen ⊢
  simp only [List.length_append, List.length_take, List.length_drop]
  split at hn <;> omega

theorem writeFault?_accept (hn : n ≤ s.fitting text.length) :
    (s.accept (text.take n)).writeFault? (text.drop n) = s.writeFault? text := by
  have hlen := s.fitting_le text.length
  have h : (s.accept (text.take n)).accepted.length + (text.drop n).length = s.accepted.length + text.length := by
    simp [accept]
    omega
  simp only [writeFault?, h]
  rfl

/-- An offer that is taken in part leaves the outcome of writing as it was. -/
theorem run_write_piece (hn : n ≤ s.fitting text.length) :
    (write (text.drop n)).run (s.accept (text.take n)) = (write text).run s := by
  rw [run_write, run_write, fitting_accept hn, writeFault?_accept hn]
  congr 1
  simp only [accept, List.append_assoc]
  rw [← List.take_add, Nat.add_sub_cancel' hn]

theorem run_write_full (ht : text ≠ []) (hfull : s.fitting text.length = 0) (hlimit : s.limit = .full room fault) :
    (write text).run s = ⟨.error fault, s, []⟩ := by
  have hlen := List.length_pos_iff.mpr ht
  have hfault : s.writeFault? text = some fault := by
    simp only [fitting, hlimit] at hfull
    simp only [writeFault?, hlimit]
    exact if_neg (by omega)
  rw [run_write, hfull, hfault]
  simp [accept]

theorem writeFault?_eq_none_iff (ht : text ≠ []) :
    s.writeFault? text = none ↔ s.fitting text.length = text.length := by
  have hlen := List.length_pos_iff.mpr ht
  cases h : s.limit <;> simp [writeFault?, fitting, h]
  omega

theorem writeFault?_nil_of_taken (ht : text ≠ []) (hn : n ≤ s.fitting text.length) (hnil : text.drop n = []) :
    (s.accept (text.take n)).writeFault? [] = none := by
  have hle := s.fitting_le text.length
  have hdrop := List.drop_eq_nil_iff.mp hnil
  rw [← hnil, writeFault?_accept hn, writeFault?_eq_none_iff ht]
  omega

/-- However a sink takes its bytes, it ends up as after one write. -/
theorem Offers.run_write (h : Offers s text r s') (hs : text = [] → s.writeFault? [] = none) :
    (write text).run s = ⟨r, s', []⟩ := by
  -- An overfull sink refuses even the empty text, so that `hs` goes along. An offer that was taken gives it back.
  induction h with
  | done s =>
    rw [Sink.run_write, hs rfl]
    simp [accept]
  | @taken s s' text n r ht ho hpos _ ih =>
    have hn : n ≤ s.fitting text.length := by
      cases ho with
      | taken hn _ => exact hn
      | ignored => omega
    rw [← run_write_piece hn]
    exact ih (writeFault?_nil_of_taken ht hn)
  | ignored ht ho =>
    cases ho with
    | taken _ hpos => omega
    | ignored hfull hlimit => exact run_write_full ht hfull hlimit
  | refused ht ho =>
    cases ho with
    | refused hfull hlimit => exact run_write_full ht hfull hlimit

theorem offers_of_full (hfull : s.fitting text.length = 0) (hs : text = [] → s.writeFault? [] = none) :
    Offers s text ((write text).run s).result ((write text).run s).state := by
  rcases eq_or_ne text [] with rfl | ht
  · rw [(Offers.done s).run_write hs]
    exact .done s
  · have hlen := List.length_pos_iff.mpr ht
    obtain ⟨room, fault, hlimit⟩ := exists_limit_of_fitting_lt (s := s) (hfull ▸ hlen)
    rw [run_write_full ht hfull hlimit]
    exact .refused ht (.refused hfull hlimit)

theorem offers_iff (ht : text ≠ []) : Offers s text r s' ↔ (write text).run s = ⟨r, s', []⟩ := by
  refine ⟨fun h => h.run_write fun hnil => absurd hnil ht, fun h => ?_⟩
  -- For the way back one offer is enough: all that fits is taken at once, and a full sink is left.
  suffices h' : Offers s text ((write text).run s).result ((write text).run s).state by rwa [h] at h'
  rcases Nat.eq_zero_or_pos (s.fitting text.length) with hfull | hpos
  · exact offers_of_full hfull fun hnil => absurd hnil ht
  · have hn := le_refl (s.fitting text.length)
    refine .taken ht (.taken hn hpos) hpos ?_
    rw [← run_write_piece hn]
    refine offers_of_full ?_ (writeFault?_nil_of_taken ht hn)
    rw [fitting_accept hn, Nat.sub_self]

theorem run_flush (s : Sink) : flush.run s = ⟨(flush.run s).result, s, []⟩ := by
  cases h : s.limit <;> simp [flush, Action.run, h]

end Sink

namespace Conversion

variable {ρ : Type} {sink after : Sink} {code : String} {r : Except IoFault Unit}

theorem run_deliver (sink : Sink) (code : String) :
    let text := Bytes.ofString code
    let after := sink.accept (text.take (sink.fitting text.length))
    (deliver code).run sink =
      ⟨(sink.writeFault? text).elim (Sink.flush.run after).result .error, after, []⟩ := by
  intro text after
  have hw := Sink.run_write sink text
  cases hf : sink.writeFault? text with
  | none =>
    rw [hf] at hw
    rw [deliver, Action.run_bind_ok hw, Sink.run_flush]
    rfl
  | some fault =>
    rw [hf] at hw
    rw [deliver, Action.run_bind_error hw]
    rfl

theorem delivers_iff (hcode : Bytes.ofString code ≠ []) :
    sink.Delivers (Bytes.ofString code) r after ↔ (deliver code).run sink = ⟨r, after, []⟩ := by
  constructor
  · intro h
    cases h with
    | failed h =>
      rw [Sink.offers_iff hcode] at h
      rw [deliver, Action.run_bind_error h]
    | flushed h hr =>
      rw [Sink.offers_iff hcode] at h
      rw [deliver, Action.run_bind_ok h, Sink.run_flush, hr]
      rfl
  · intro h
    have hes : ((Sink.write (Bytes.ofString code)).run sink).events = [] := by rw [Sink.run_write]
    match hw : (Sink.write (Bytes.ofString code)).run sink with
    | ⟨.error fault, s, es⟩ =>
      obtain rfl : es = [] := by rwa [hw] at hes
      rw [deliver, Action.run_bind_error hw] at h
      cases h
      exact .failed ((Sink.offers_iff hcode).mpr hw)
    | ⟨.ok (), s, es⟩ =>
      obtain rfl : es = [] := by rwa [hw] at hes
      rw [deliver, Action.run_bind_ok hw, Sink.run_flush] at h
      cases h
      exact .flushed ((Sink.offers_iff hcode).mpr hw) rfl

theorem ofString_render_ne_nil (c : Conversion ρ) (d : RecordDef) : Bytes.ofString (c.render d) ≠ [] := by
  intro h
  have hempty : c.render d = "" := by
    have hs := Bytes.toString?_ofString (c.render d)
    rw [h, show ([] : Bytes) = Bytes.ofString "" from rfl, Bytes.toString?_ofString] at hs
    exact (Option.some.inj hs).symm
  have hline : '\n' ∈ (c.render d).toList := by
    rw [render, Code.render, String.toList_join, List.mem_flatMap]
    exact ⟨"" ++ "\n", List.mem_map.mpr ⟨"", by simp [Code.lines], rfl⟩, by decide⟩
  rw [hempty] at hline
  cases hline

theorem map_mapError_eq_ok_iff {d : RecordDef} :
    (r.mapError DefinitionError.io).map (fun _ => d) = .ok d ↔ r = .ok () := by
  cases r <;> simp [Except.mapError, Except.map]

/-- A conversion writes nothing, or the first bytes of the record code. If no definition is read, the sink is left
alone. Otherwise it gets as many bytes of the code as it has room for, in whatever pieces it takes them, and the
conversion succeeds if and only if that is all of them and flushing succeeds. What the conversion knows afterwards it
has from reading. -/
theorem convert_writes_first_bytes [SizeSource ρ] (c : Conversion ρ) (source : Source) (sink : Sink) :
    let o := convert.run ⟨c, source, sink⟩
    let r := (readFrom source).run c
    o.state.conversion = r.state ∧
      match r.result with
      | .error e => o.result = .error e ∧ o.state.sink = sink
      | .ok d =>
        let code := Bytes.ofString (c.render d)
        let n := sink.fitting code.length
        o.state.sink = { sink with accepted := sink.accepted ++ code.take n } ∧
          (o.result = .ok d ↔ n = code.length ∧ (Sink.flush.run o.state.sink).result = .ok ()) ∧
          ∃ w, o.result = (w.mapError DefinitionError.io).map (fun _ => d) ∧
            ∀ w' after, sink.Delivers code w' after ↔ w' = w ∧ after = o.state.sink := by
  intro o r
  match hr : readRecord.run (c, source) with
  | ⟨.error e, (c', rest), es⟩ =>
    have ho : o = ⟨.error e, ⟨c', rest, sink⟩, es⟩ := run_convert_error hr
    have hr' : r = ⟨.error e, c', es⟩ := run_readFrom_of_readRecord hr
    rw [ho, hr']
    exact ⟨rfl, rfl, rfl⟩
  | ⟨.ok d, (c', rest), es⟩ =>
    have hr' : r = ⟨.ok d, c', es⟩ := run_readFrom_of_readRecord hr
    -- Reading does not touch the module path, on which the code depends besides the definition.
    have hpath : c'.render d = c.render d := by
      have h := modulePath_readFrom c source
      rw [show (readFrom source).run c = _ from hr'] at h
      rw [render, h, render]
    have ho : o = _ := run_convert_ok hr
    dsimp only at ho
    have hcode := ofString_render_ne_nil c d
    have hw := run_deliver sink (c.render d)
    rw [hpath, hw] at ho
    rw [ho, hr']
    refine ⟨rfl, rfl, ?_, _, rfl, fun w after => ?_⟩
    · rw [map_mapError_eq_ok_iff, ← Sink.writeFault?_eq_none_iff hcode]
      cases sink.writeFault? (Bytes.ofString (c.render d)) with
      | none => exact ⟨fun h => ⟨rfl, h⟩, And.right⟩
      | some fault => simp
    · rw [delivers_iff hcode, hw, Outcome.mk.injEq]
      exact ⟨fun h => ⟨h.1.symm, h.2.1.symm⟩, fun h => ⟨h.1.symm, h.2.symm, rfl⟩⟩

end Conversion

end RecordLayout
