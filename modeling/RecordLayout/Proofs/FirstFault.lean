import RecordLayout.Proofs.Consumption
import RecordLayout.Proofs.Layout
import RecordLayout.SizeSource.Prompt

/-!
# The first line that is wrong

A failure behind the header names the line that caused it, unless it is one of input or output
(`Stops.atLine`). All lines in front of that line are accepted, so that a definition which ends
there is read; what follows the line is not looked at.
-/

namespace RecordLayout

namespace Source

variable {s : Source} {n : Nat}

/-- The first `n` lines of a source, as a source that ends behind them. -/
def take (n : Nat) (s : Source) : Source := { bytes := (s.bytes.lines.take n).flatten }

theorem lines_take (h : n < s.lines.length) : (s.take n).lines = s.lines.take n := by
  have htake : (s.take n).lines = (s.bytes.lines.take n).map lineText :=
    congrArg (List.map lineText) (Bytes.lines_take s.bytes n)
  rw [htake]
  unfold lines at h ⊢
  split at h
  · rw [List.map_take]
  · -- The failure stands behind the lines that have their newline, and these are the first ones.
    simp only [List.length_append, List.length_map, List.length_singleton] at h
    obtain ⟨t, ht⟩ := Bytes.filter_isEnded_prefix s.bytes
    rw [List.take_append_of_le_length (by simp; omega), ← List.map_take]
    conv_lhs => rw [← ht, List.take_append_of_le_length (by omega)]

end Source

namespace Conversion

variable {ρ : Type} [SizeSource ρ] {c : Conversion ρ} {e : DefinitionError} {k : Nat}

theorem Reached.Accepts.content?_ne {s s' : Reached ρ} {lines : List NumberedLine} (h : s.Accepts lines s') :
    ∀ l ∈ lines, l.content? ≠ some terminator := by
  induction h with
  | nil => simp
  | cons ht _ ih => exact List.forall_mem_cons.mpr ⟨ht.content?_ne, ih⟩

/-- A failure that names a line comes from a line that stops the reading, behind lines that are accepted. -/
theorem exists_stops_of_memberLine? (lines : List NumberedLine)
    (h : ((readLines lines).run ⟨c, 0⟩).result = .error e) (hk : e.memberLine? = some k) :
    ∃ header raw name pre line post s o, lines = header :: (pre ++ line :: post) ∧ header.text = .ok raw ∧
      headerName? raw = some name ∧ (Reached.start c).Accepts pre s ∧ s.Stops line o ∧ o.result = .error e ∧
      line.number = k := by
  rcases lines with _ | ⟨header, rest⟩
  · cases h; cases hk
  cases hl : header.text with
  | error fault => rw [run_readLines_unreadable hl] at h; cases h; cases hk
  | ok raw =>
    cases hn : headerName? raw with
    | none => rw [run_readLines_malformed hl hn] at h; cases h; cases hk
    | some name =>
      obtain ⟨es, hr, -⟩ := run_readLines_header c rest hl hn
      rw [hr] at h
      rcases Reached.go_cases (Reached.start c) rest with ⟨s, -, hg⟩ | ⟨pre, line, post, s, o, rfl, ha, hst, hg⟩
      · rw [hg, Reached.go_nil] at h; cases h
      · have ho : o.result = .error e := by
          rw [hg] at h
          match hres : o.result with
          | .ok fields => rw [hres] at h; cases h
          | .error e' => rw [hres] at h; cases h; rfl
        refine ⟨header, raw, name, pre, line, post, s, o, rfl, hl, hn, ha, hst, ho, ?_⟩
        rcases hst.atLine ho with hline | ⟨fault, rfl⟩
        · rw [hk] at hline
          exact (Option.some.inj hline).symm
        · cases hk

theorem take_numberedLines {source source' : Source} {n : Nat} (h : source'.lines.take n = source.lines.take n) :
    (numberedLines source').take n = (numberedLines source).take n := by
  refine List.ext_getElem? fun i => ?_
  have hi := congrArg (·[i]?) h
  simp only [List.getElem?_take] at hi ⊢
  split at hi
  · next hlt => simp [numberedLines, hlt, hi]
  · next hlt => simp [hlt]

theorem numberedLines_take {source : Source} {n : Nat} (h : n < source.lines.length) :
    numberedLines (source.take n) = (numberedLines source).take n := by
  have hlen : (numberedLines (source.take n)).length ≤ n := by
    rw [numberedLines, List.length_map, List.length_zipIdx, Source.lines_take h]
    exact List.length_take_le n _
  rw [← List.take_of_length_le hlen]
  exact take_numberedLines (by rw [Source.lines_take h, List.take_take, Nat.min_self])

/-- A failure that names a line names the first one that is wrong. The line stands behind the header, and it is the
last one that is used up. No line in front of it ends the members, and without it and what follows the same reading
succeeds. Nothing behind it matters: a source that starts with the same lines fails in the same way. -/
theorem failure_names_first_bad_line (c : Conversion ρ) (source : Source) {e : DefinitionError} {k : Nat}
    (h : (readRecord.run (c, source)).result = .error e) (hk : e.memberLine? = some k) :
    let o := readRecord.run (c, source)
    2 ≤ k ∧ k ≤ source.lines.length ∧ o.state.2 = source.drop k ∧
    (∀ i text, 1 ≤ i → i < k - 1 → source.lines[i]? = some (.ok text) → trimmed text ≠ terminator) ∧
    (∃ d, (readRecord.run (c, source.take (k - 1))).result = .ok d) ∧
    ∀ source', source'.lines.take k = source.lines.take k →
      readRecord.run (c, source') = ⟨.error e, (o.state.1, source'.drop k), o.events⟩ := by
  intro o
  obtain ⟨header, raw, name, pre, line, post, s, q, hs, hl, hn, ha, hst, hq, hnum⟩ :=
    exists_stops_of_memberLine? (numberedLines source) h hk
  obtain rfl : k = pre.length + 2 := hnum.symm.trans (number_eq_of_numberedLines hs)
  have hlen : source.lines.length = pre.length + post.length + 2 := by
    have := congrArg List.length hs
    simp [numberedLines] at this
    omega
  -- what follows the line makes no difference to the members, so it makes none to the definition
  have hgo : ∀ more, (Reached.start c).go (pre ++ line :: more) = q := fun more => by
    rw [Reached.go_of_accepts ha, Reached.go_of_stops hst]
  have hread : ((readLines (numberedLines source)).run ⟨c, 0⟩).state.linesRead = pre.length + 2 := by
    obtain ⟨es, hr, -⟩ := run_readLines_header c (pre ++ line :: post) hl hn
    rw [hs, hr, hgo]
    show q.state.linesRead = _
    rw [hst.linesRead, ha.linesRead]
    show 1 + pre.length + 1 = _
    omega
  refine ⟨by omega, by omega, congrArg source.drop hread, ?_, ?_, ?_⟩
  · intro i text hi hik htext hterm
    have hmem : (⟨i + 1, .ok text⟩ : NumberedLine) ∈ pre := by
      have hget : (numberedLines source)[i]? = some ⟨i + 1, .ok text⟩ := by simp [numberedLines, htext]
      obtain ⟨i, rfl⟩ := Nat.exists_eq_add_of_le' hi
      rw [hs, List.getElem?_cons_succ, List.getElem?_append_left (by omega)] at hget
      exact List.mem_of_getElem? hget
    exact ha.content?_ne _ hmem (by rw [NumberedLine.content?_of_ok rfl, hterm])
  · refine ⟨⟨name, s.fields⟩, ?_⟩
    have htake : numberedLines (source.take (pre.length + 2 - 1)) = header :: pre := by
      rw [numberedLines_take (by omega), hs]
      simp
    obtain ⟨es, hr, -⟩ := run_readLines_header c pre hl hn
    show ((readLines (numberedLines _)).run ⟨c, 0⟩).result = _
    rw [htake, hr, ← List.append_nil pre, Reached.go_of_accepts ha, Reached.go_nil]
    rfl
  · intro source' hsame
    have hs' : numberedLines source' =
        header :: (pre ++ line :: (numberedLines source').drop (pre.length + 2)) := by
      conv_lhs => rw [← List.take_append_drop (pre.length + 2) (numberedLines source'), take_numberedLines hsame, hs]
      simp [List.take_length_add_append]
    have hrun : (readLines (numberedLines source')).run ⟨c, 0⟩ = (readLines (numberedLines source)).run ⟨c, 0⟩ := by
      rw [hs, hs']
      exact run_readLines_congr header (by rw [hgo, hgo])
    show Outcome.mk _ (_, source'.drop _) _ = _
    rw [hrun, hread]
    exact congrArg (Outcome.mk · _ _) h

/-- A type that the terminal declines, on the fifth line: a blank line counts, an earlier answer counts as well, and
the terminator behind the line is not read. -/
theorem failure_names_first_bad_line_declined :
    let c : Conversion Prompt := ⟨"", .ofEntries [], .ofString "x\n-4", .ofLimit .never⟩
    let source : Source := .ofString "struct A\r\n B y[2];\n\t\nUInt8 z;\nC w;\n\x7d;\n"
    let e := DefinitionError.unresolvableType "C" 5
    (readRecord.run (c, source)).result = .error e ∧
    (readRecord.run (c, source)).state.2 = .ofString "\x7d;\n" ∧
    (∃ d, (readRecord.run (c, .ofString "struct A\r\n B y[2];\n\t\nUInt8 z;\n")).result = .ok d) ∧
    (readRecord.run (c, ⟨Bytes.ofString "struct A\n B y[2];\n\t\nUInt8 z;\nC w;\n" ++ [0xff], none⟩)).result =
      .error e := by
  intro c source e
  have he : (readRecord.run (c, source)).result = .error e := by decide +kernel
  obtain ⟨-, -, hrest, -, hok, hsame⟩ := failure_names_first_bad_line c source he rfl
  refine ⟨he, hrest.trans (by decide +kernel), ?_, ?_⟩
  · rwa [show source.take (5 - 1) = .ofString "struct A\r\n B y[2];\n\t\nUInt8 z;\n" by decide +kernel] at hok
  · rw [hsame _ (by decide +kernel)]

end Conversion

end RecordLayout
