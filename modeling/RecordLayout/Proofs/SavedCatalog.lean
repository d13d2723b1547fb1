import RecordLayout.CommandLine.Run
import RecordLayout.Proofs.Declarators
import RecordLayout.Proofs.FileWrites
import RecordLayout.Proofs.TextLines

/-!
# Saved catalogs

Loading undoes saving. Each reader is shown to take what its writer has put in front of any rest: a
character (`readString_writeChar`), a size (`readSize_toDigits`), an entry (`readEntry_writeEntry`), and
all entries up to the closing brace (`readEntries_writeEntries`). Names stand once in a catalog, so it is
the catalog of its entries (`ofEntries_entries`).
-/

namespace RecordLayout.SizeCatalog

namespace Json

variable {c e sep : Char} {cs : List Char} {n : Nat}

/-! ### Names -/

theorem writeChar_cases (c : Char) :
    (∃ e, shortEscape? e = some c ∧ writeChar c = ['\\', e]) ∨
      c.toNat < 0x20 ∧ writeChar c = ['\\', 'u', '0', '0'] ++ hexPair c.toNat ∨
      c ≠ '"' ∧ c ≠ '\\' ∧ ¬c.toNat < 0x20 ∧ writeChar c = [c] := by
  unfold writeChar
  by_cases hq : c = '"'
  · exact .inl ⟨'"', by rw [hq]; rfl, if_pos hq⟩
  by_cases hb : c = '\\'
  · exact .inl ⟨'\\', by rw [hb]; rfl, by rw [hb]; rfl⟩
  simp only [if_neg hq, if_neg hb]
  iterate 5
    split
    · next h => exact .inl ⟨_, by rw [h]; rfl, rfl⟩
  split
  · next h => exact .inr (.inl ⟨h, rfl⟩)
  · next h => exact .inr (.inr ⟨hq, hb, h, rfl⟩)

theorem readString_short (h : shortEscape? e = some c) (rest : List Char) :
    readString ('\\' :: e :: rest) = push c (readString rest) := by
  have hu : e ≠ 'u' := by
    rintro rfl
    cases h
  rw [readString.eq_def]
  simp [hu, h]

theorem unit?_hexPair (h : n < 0x20) :
    unit? '0' '0' (Nat.digitChar (n / 16)) (Nat.digitChar (n % 16)) = some n := by
  revert n
  decide

theorem readString_number (h : c.toNat < 0x20) (rest : List Char) :
    readString (['\\', 'u', '0', '0'] ++ hexPair c.toNat ++ rest) = push c (readString rest) := by
  have hhigh : isHighSurrogate c.toNat = false := by
    simp [isHighSurrogate]; omega
  have hlow : isLowSurrogate c.toNat = false := by
    simp [isLowSurrogate]; omega
  show readString ('\\' :: 'u' :: '0' :: '0' :: _ :: _ :: rest) = _
  rw [readString, unit?_hexPair h]
  simp [hhigh, hlow]

theorem readString_plain (hq : c ≠ '"') (hb : c ≠ '\\') (h : ¬c.toNat < 0x20) (rest : List Char) :
    readString (c :: rest) = push c (readString rest) := by
  rw [readString.eq_def]
  simp [hb, h]

theorem readString_writeChar (c : Char) (rest : List Char) :
    readString (writeChar c ++ rest) = push c (readString rest) := by
  rcases writeChar_cases c with ⟨e, he, hw⟩ | ⟨h, hw⟩ | ⟨hq, hb, h, hw⟩
  · rw [hw]; exact readString_short he rest
  · rw [hw]; exact readString_number h rest
  · rw [hw]; exact readString_plain hq hb h rest

theorem readString_flatMap (cs rest : List Char) :
    readString (cs.flatMap writeChar ++ '"' :: rest) = some (cs, rest) := by
  induction cs with
  | nil => rfl
  | cons c cs ih => rw [List.flatMap_cons, List.append_assoc, readString_writeChar, ih]; rfl

/-! ### Sizes -/

theorem head?_toDigits_ne (h : 0 < n) : (Nat.toDigits 10 n).head? ≠ some '0' := by
  induction n using Nat.strong_induction_on with
  | _ n ih =>
    by_cases hn : n < 10
    · have hdigit : ∀ m < 10, 0 < m → [Nat.digitChar m].head? ≠ some '0' := by decide
      rw [Nat.toDigits_of_lt_base hn]
      exact hdigit n hn h
    · have hrest := ih (n / 10) (by omega) (by omega)
      rw [Nat.toDigits_of_base_le (by decide) (by omega), List.head?_append]
      cases hd : (Nat.toDigits 10 (n / 10)).head? with
      | none => exact absurd (List.head?_eq_none_iff.mp hd) Nat.toDigits_ne_nil
      | some d => rwa [hd] at hrest

theorem readSize_toDigits (hn : n ≤ maxSize) (hs : sep.isDigit = false) (rest : List Char) :
    readSize (Nat.toDigits 10 n ++ sep :: rest) = some (n, sep :: rest) := by
  have hdigit : ∀ d ∈ Nat.toDigits 10 n, d.isDigit = true := fun d hd =>
    Nat.isDigit_of_mem_toDigits (by decide) (by decide) hd
  have htake : (Nat.toDigits 10 n ++ sep :: rest).takeWhile Char.isDigit = Nat.toDigits 10 n := by
    rw [List.takeWhile_append_of_pos hdigit, List.takeWhile_cons_of_neg (by simp [hs]), List.append_nil]
  have hdrop : (Nat.toDigits 10 n ++ sep :: rest).dropWhile Char.isDigit = sep :: rest := by
    rw [List.dropWhile_append_of_pos hdigit, List.dropWhile_cons_of_neg (by simp [hs])]
  have hzero : ¬(1 < (Nat.toDigits 10 n).length ∧ (Nat.toDigits 10 n).head? = some '0') := by
    rintro ⟨hlen, hhead⟩
    rcases Nat.eq_zero_or_pos n with rfl | hpos
    · exact absurd hlen (by decide)
    · exact head?_toDigits_ne hpos hhead
  simp only [readSize, htake, hdrop, Text.natOfDigits_toDigits]
  rw [if_neg]
  simpa [Nat.toDigits_ne_nil, hn] using hzero

/-! ### Entries -/

theorem readEntry_writeEntry {e : String × Nat} (hn : e.2 ≤ maxSize) (hs : sep.isDigit = false)
    (rest : List Char) :
    readEntry ('\n' :: writeEntry e ++ sep :: rest) = some (e, skipSpace (sep :: rest)) := by
  obtain ⟨name, size⟩ := e
  have hopen : expect '"' (skipSpace ('\n' :: writeEntry (name, size) ++ sep :: rest)) =
      some (name.toList.flatMap writeChar ++ '"' :: ':' :: ' ' :: (Nat.toDigits 10 size ++ sep :: rest)) := by
    simp [writeEntry, writeString, skipSpace, isSpace, expect]
  have hdigits : skipSpace (Nat.toDigits 10 size ++ sep :: rest) = Nat.toDigits 10 size ++ sep :: rest := by
    obtain ⟨d, ds, hd⟩ := List.exists_cons_of_ne_nil (Nat.toDigits_ne_nil (b := 10) (n := size))
    have hdigit : d.isDigit = true :=
      Nat.isDigit_of_mem_toDigits (b := 10) (n := size) (by decide) (by decide)
        (by rw [hd]; exact List.mem_cons_self)
    have hspace : ¬isSpace d = true := by
      intro h
      simp only [isSpace, Bool.or_eq_true, decide_eq_true_eq] at h
      rcases h with ((rfl | rfl) | rfl) | rfl <;> exact absurd hdigit (by decide)
    rw [hd, List.cons_append, skipSpace, List.dropWhile_cons_of_neg hspace]
  have hcolon : expect ':' (skipSpace (':' :: ' ' :: (Nat.toDigits 10 size ++ sep :: rest))) =
      some (' ' :: (Nat.toDigits 10 size ++ sep :: rest)) := rfl
  have hblank : skipSpace (' ' :: (Nat.toDigits 10 size ++ sep :: rest)) =
      skipSpace (Nat.toDigits 10 size ++ sep :: rest) := rfl
  simp only [readEntry, hopen, readString_flatMap, hcolon, hblank, hdigits, readSize_toDigits hn hs,
    Option.bind_eq_bind, Option.bind_some, String.ofList_toList]
  rfl

theorem readEntries_of_readEntry {e : String × Nat} {rest : List Char} (h : readEntry cs = some (e, c :: rest)) :
    readEntries cs = if c = '\x7d' then some ([e], rest)
      else if c = ',' then (readEntries rest).map fun (es, r) => (e :: es, r) else none := by
  rw [readEntries]
  split
  · next h' => rw [h] at h'; cases h'
  · next h' => rw [h] at h'; cases h'
  · next h' =>
    rw [h] at h'
    cases h'
    rfl

theorem readEntries_writeEntries {es : List (String × Nat)} (hne : es ≠ [])
    (hn : ∀ e ∈ es, e.2 ≤ maxSize) (rest : List Char) :
    readEntries ('\n' :: writeEntries es ++ '\x7d' :: rest) = some (es, rest) := by
  induction es with
  | nil => exact absurd rfl hne
  | cons e es ih =>
    rw [List.forall_mem_cons] at hn
    cases es with
    | nil =>
      have hentry := readEntry_writeEntry hn.1 (show Char.isDigit '\n' = false by decide) ('\x7d' :: rest)
      rw [show skipSpace ('\n' :: '\x7d' :: rest) = '\x7d' :: rest from rfl] at hentry
      have hcs : '\n' :: writeEntries [e] ++ '\x7d' :: rest = '\n' :: writeEntry e ++ '\n' :: '\x7d' :: rest := by
        simp [writeEntries]
      rw [hcs, readEntries_of_readEntry hentry, if_pos rfl]
    | cons e' es =>
      have hentry := readEntry_writeEntry hn.1 (show Char.isDigit ',' = false by decide)
        ('\n' :: writeEntries (e' :: es) ++ '\x7d' :: rest)
      rw [show skipSpace (',' :: ('\n' :: writeEntries (e' :: es) ++ '\x7d' :: rest)) =
        ',' :: ('\n' :: writeEntries (e' :: es) ++ '\x7d' :: rest) from rfl] at hentry
      have hcs : '\n' :: writeEntries (e :: e' :: es) ++ '\x7d' :: rest =
          '\n' :: writeEntry e ++ ',' :: ('\n' :: writeEntries (e' :: es) ++ '\x7d' :: rest) := by
        simp [writeEntries]
      rw [hcs, readEntries_of_readEntry hentry, if_neg (by decide), if_pos rfl,
        ih (List.cons_ne_nil _ _) hn.2]
      rfl

end Json

/-! ### Catalogs -/

variable {c : SizeCatalog}

theorem entries_foldl_put (c : SizeCatalog) (es : List (String × Nat))
    (h : ((c.entries ++ es).map Prod.fst).Nodup) :
    (es.foldl (fun c e => c.put e.1 e.2) c).entries = c.entries ++ es := by
  induction es generalizing c with
  | nil => simp
  | cons e es ih =>
    have hnew : c.find? e.1 = none := by
      rw [find?_eq_none_iff]
      rw [List.map_append, List.nodup_append] at h
      exact fun hmem => h.2.2 _ hmem _ List.mem_cons_self rfl
    have hput : c.put e.1 e.2 = c.add e.1 e.2 hnew := dif_pos hnew
    have hentries : (c.add e.1 e.2 hnew).entries = c.entries ++ [e] := rfl
    rw [List.foldl_cons, hput, ih _ (by rw [hentries]; simpa using h), hentries]
    simp

theorem ofEntries_entries (c : SizeCatalog) : ofEntries c.entries = c := by
  have h : (ofEntries c.entries).entries = c.entries := entries_foldl_put empty c.entries c.nodup
  cases hk : ofEntries c.entries with
  | mk es hes =>
    rw [hk] at h
    cases h
    rfl

theorem readObject_toJson (hb : ∀ e ∈ c.entries, e.2 ≤ maxSize) :
    Json.readObject (c.toJson ++ "\n").toList = some c.entries := by
  rw [String.toList_append, toJson]
  by_cases he : c.entries = []
  · rw [he]
    rfl
  · have htext : '\x7b' :: '\n' :: Json.writeEntries c.entries ++ ['\x7d'] ++ "\n".toList =
        '\x7b' :: ('\n' :: Json.writeEntries c.entries ++ '\x7d' :: ['\n']) := by
      simp
    have hread := Json.readEntries_writeEntries he hb ['\n']
    have hfull : Json.expect '\x7d' (Json.skipSpace ('\n' :: Json.writeEntries c.entries ++ '\x7d' :: ['\n'])) =
        none := by
      obtain ⟨e, es, hes⟩ := List.exists_cons_of_ne_nil he
      rw [hes]
      cases es <;> simp [Json.writeEntries, Json.writeEntry, Json.writeString, Json.skipSpace, Json.isSpace,
        Json.expect]
    rw [if_neg (by simpa using he), String.toList_ofList, htext]
    simp only [Json.readObject, show Json.expect '\x7b' (Json.skipSpace ('\x7b' :: ('\n' ::
      Json.writeEntries c.entries ++ '\x7d' :: ['\n']))) = some _ from rfl, Option.bind_eq_bind, Option.bind_some,
      hfull, hread]
    rfl

theorem ofJson?_toJson (hb : ∀ e ∈ c.entries, e.2 ≤ maxSize) : ofJson? (c.toJson ++ "\n") = some c := by
  rw [ofJson?, readObject_toJson hb, Option.map_some, ofEntries_entries]

theorem write_of_saveCatalog {t t' : FileTree} {path : String} (h : CommandLine.saveCatalog t path c = .ok t') :
    t.write path (Bytes.ofString (c.toJson ++ "\n")) = .ok t' := by
  unfold CommandLine.saveCatalog at h
  cases hw : t.write path (Bytes.ofString (c.toJson ++ "\n")) with
  | error fault => rw [hw] at h; cases h
  | ok written =>
    rw [hw] at h
    cases h
    rfl

/-- A catalog whose sizes fit into 64 bits comes back from its saved form, with all entries in their order,
whatever characters its names have: from the text, and from the file that it was saved to. -/
theorem saved_catalog_loads_back (c : SizeCatalog) (hb : ∀ e ∈ c.entries, e.2 ≤ maxSize) :
    ofJson? (c.toJson ++ "\n") = some c ∧
    ∀ t path t', CommandLine.saveCatalog t path c = .ok t' → CommandLine.loadCatalog t' path = .ok c := by
  refine ⟨ofJson?_toJson hb, fun t path t' hs => ?_⟩
  have hopen := (FileTree.writes_of_write (write_of_saveCatalog hs)).openFile (List.mem_singleton_self _)
  have htext : t'.readText path = .ok (c.toJson ++ "\n") := by
    simp only [FileTree.readText, hopen, bind, Except.bind, Bytes.toString?_ofString]
  simp only [CommandLine.loadCatalog, htext, mapError_ok, bind, Except.bind, ofJson?_toJson hb]

/-- Every kind of escape, characters that need none, an empty name, and the least and the greatest size. -/
theorem saved_catalog_loads_back_escapes :
    let c : SizeCatalog := ⟨[("q\"b\\s/\x08\t\n\x0c\r\x00\x1f\x7f é😀", 0), ("", 18446744073709551615), ("A", 12)],
      by decide⟩
    let t : FileTree := ⟨[(["c.json"], .file [])], [], by decide, by decide, by decide⟩
    (∀ e ∈ c.entries, e.2 ≤ maxSize) ∧ ofJson? (c.toJson ++ "\n") = some c ∧
    ∃ t', CommandLine.saveCatalog t "c.json" c = .ok t' ∧ CommandLine.loadCatalog t' "c.json" = .ok c := by
  intro c t
  have hb : ∀ e ∈ c.entries, e.2 ≤ maxSize := by decide
  obtain ⟨htext, hfile⟩ := saved_catalog_loads_back c hb
  refine ⟨hb, htext, _, rfl, hfile t "c.json" _ rfl⟩

end RecordLayout.SizeCatalog
