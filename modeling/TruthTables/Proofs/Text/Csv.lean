import TruthTables.Text.Csv

/-!
Values separated by commas are read as they were written, whatever the fields hold, as long as no
record is without fields and whoever writes quotes all that breaks a line for whoever reads.
-/

namespace TruthTables.Csv

/-- No character of the field breaks a line for the reader and none for the writer. -/
def Fits (writes reads : Bool) (field : List Char) : Prop :=
  ∀ c ∈ field, isBreak reads c = true → isBreak writes c = true

theorem fits_of_returns {writes reads : Bool} {field : List Char}
    (h : reads = true → writes = true ∨ '\r' ∉ field) : Fits writes reads field := by
  intro c hc hbreak
  simp only [isBreak, Bool.or_eq_true, Bool.and_eq_true, beq_iff_eq] at hbreak ⊢
  rcases hbreak with hfeed | ⟨hreads, rfl⟩
  · exact .inl hfeed
  · rcases h hreads with hwrites | hnone
    · exact .inr ⟨hwrites, rfl⟩
    · exact absurd hc hnone

namespace Reader

variable {writes reads : Bool}

/-- Where a bare field may go on. -/
def IsOpen (r : Reader) : Prop :=
  r.place = .start ∨ r.place = .bare

/-- Where a field may end: neither inside quotes nor behind a carriage return. -/
def IsEnding (r : Reader) : Prop :=
  r.place = .start ∨ r.place = .bare ∨ r.place = .closed

theorem IsEnding.read_eq {r : Reader} (h : r.IsEnding) {c : Char} (hc : c ≠ '"') :
    r.read reads c = r.readBare reads c := by
  rcases h with h | h | h <;> simp [read, h, hc]

theorem IsEnding.read_comma {r : Reader} (h : r.IsEnding) : r.read reads ',' = r.endField :=
  h.read_eq (by decide)

theorem IsEnding.read_lineFeed {r : Reader} (h : r.IsEnding) :
    r.read reads '\n' = r.endRecord .start :=
  h.read_eq (by decide)

theorem read_bare {r : Reader} (h : r.IsOpen) {c : Char} (hcomma : c ≠ ',') (hquote : c ≠ '"')
    (hbreak : isBreak reads c = false) : r.read reads c = r.gather .bare c := by
  have hending : r.IsEnding := h.imp_right .inl
  rw [hending.read_eq hquote, readBare, if_neg hcomma, if_neg (by simp [hbreak])]

theorem foldl_read_bare {cs : List Char} (hcs : needsQuotes writes cs = false)
    (hfits : Fits writes reads cs) {r : Reader} (h : r.IsOpen) :
    ∃ next, IsOpen next ∧ cs.foldl (read reads) r = next ∧
      next.records = r.records ∧ next.fields = r.fields ∧ next.field = cs.reverse ++ r.field := by
  induction cs generalizing r with
  | nil => exact ⟨r, h, rfl, rfl, rfl, rfl⟩
  | cons c cs ih =>
      simp only [needsQuotes, List.any_cons, Bool.or_eq_false_iff, beq_eq_false_iff_ne] at hcs ih
      obtain ⟨⟨⟨hcomma, hquote⟩, hbreak⟩, hrest⟩ := hcs
      obtain ⟨hfirst, hfits⟩ := List.forall_mem_cons.mp hfits
      have hunbroken : isBreak reads c = false := by
        rw [Bool.eq_false_iff]
        intro hreads
        rw [hfirst hreads] at hbreak
        contradiction
      have hread := read_bare h hcomma hquote hunbroken
      obtain ⟨next, hnext, hfold, hrecords, hfields, hfield⟩ :=
        ih hrest hfits (r := r.gather .bare c) (.inr rfl)
      refine ⟨next, hnext, by rw [List.foldl_cons, hread, hfold], hrecords, hfields, ?_⟩
      rw [hfield, gather, List.reverse_cons, List.append_assoc]
      rfl

theorem foldl_read_doubled (cs : List Char) {r : Reader} (h : r.place = .inside) :
    (doubled cs).foldl (read reads) r =
      ⟨.inside, r.records, r.fields, cs.reverse ++ r.field⟩ := by
  obtain ⟨place, records, fields, field⟩ := r
  subst h
  induction cs generalizing field with
  | nil => rfl
  | cons c cs ih =>
      have hfirst : (if c = '"' then ['"', '"'] else [c]).foldl (read reads)
          ⟨.inside, records, fields, field⟩ = ⟨.inside, records, fields, c :: field⟩ := by
        by_cases hc : c = '"'
        · subst hc
          rfl
        · simp [hc, read, gather]
      rw [doubled, List.flatMap_cons, List.foldl_append, hfirst]
      change (doubled cs).foldl (read reads) _ = _
      rw [ih, List.reverse_cons, List.append_assoc]
      rfl

theorem foldl_read_encodeField {cs : List Char} (hfits : Fits writes reads cs)
    (records : List (List (List Char))) (fields : List (List Char)) :
    ∃ next, IsEnding next ∧
      (encodeField writes cs).foldl (read reads) ⟨.start, records, fields, []⟩ = next ∧
      next.records = records ∧ next.fields = fields ∧ next.field = cs.reverse := by
  unfold encodeField
  split
  · refine ⟨⟨.closed, records, fields, cs.reverse⟩, .inr (.inr rfl), ?_, rfl, rfl, rfl⟩
    change ((doubled cs) ++ ['"']).foldl (read reads) ⟨.inside, records, fields, []⟩ = _
    rw [List.foldl_append, foldl_read_doubled cs rfl, List.append_nil]
    rfl
  · rename_i hquotes
    obtain ⟨next, hnext, hfold, hrecords, hfields, hfield⟩ :=
      foldl_read_bare (Bool.eq_false_iff.mpr hquotes) hfits
        (r := ⟨.start, records, fields, []⟩) (.inl rfl)
    exact ⟨next, hnext.imp_right .inl, hfold, hrecords, hfields, by rw [hfield, List.append_nil]⟩

theorem foldl_read_fields (field : List Char) (rest done : List (List Char))
    (hfits : ∀ other ∈ field :: rest, Fits writes reads other)
    (records : List (List (List Char))) :
    (List.intercalate [','] ((field :: rest).map (encodeField writes)) ++ ['\n']).foldl
        (read reads) ⟨.start, records, done, []⟩ =
      ⟨.start, (done.reverse ++ field :: rest) :: records, [], []⟩ := by
  induction rest generalizing field done with
  | nil =>
      obtain ⟨next, hnext, hfold, hrecords, hfields, hfield⟩ :=
        foldl_read_encodeField (hfits field List.mem_cons_self) records done
      rw [List.map_singleton, List.intercalate_singleton, List.foldl_append, hfold,
        List.foldl_cons, List.foldl_nil, hnext.read_lineFeed]
      simp [endRecord, hrecords, hfields, hfield]
  | cons other rest ih =>
      obtain ⟨hfirst, hrest⟩ := List.forall_mem_cons.mp hfits
      obtain ⟨next, hnext, hfold, hrecords, hfields, hfield⟩ :=
        foldl_read_encodeField hfirst records done
      rw [List.map_cons, List.map_cons, List.intercalate_cons_cons, List.append_assoc,
        List.append_assoc, List.foldl_append, hfold, List.foldl_append, List.foldl_cons,
        List.foldl_nil, hnext.read_comma, ← List.map_cons]
      simp only [endField, hrecords, hfields, hfield, List.reverse_reverse]
      rw [ih other (field :: done) hrest, List.reverse_cons, List.append_assoc]
      rfl

/-- What a record must be to be read as it is written. -/
def IsReadable (writes reads : Bool) (fields : List (List Char)) : Prop :=
  fields ≠ [] ∧ ∀ field ∈ fields, Fits writes reads field

theorem foldl_read_record {fields : List (List Char)} (h : IsReadable writes reads fields)
    (records : List (List (List Char))) :
    (encodeRecord writes fields ++ ['\n']).foldl (read reads) ⟨.start, records, [], []⟩ =
      ⟨.start, fields :: records, [], []⟩ := by
  cases fields with
  | nil => exact absurd rfl h.1
  | cons field rest =>
      by_cases hempty : field = [] ∧ rest = []
      · -- One empty field is written as two quotes.
        obtain ⟨rfl, rfl⟩ := hempty
        rfl
      · have hencode : encodeRecord writes (field :: rest) =
            List.intercalate [','] ((field :: rest).map (encodeField writes)) := by
          unfold encodeRecord
          split
          · simp_all
          · rfl
        rw [hencode, foldl_read_fields field rest [] h.2]
        rfl

theorem foldl_read_encode {records : List (List (List Char))}
    (h : ∀ fields ∈ records, IsReadable writes reads fields)
    (before : List (List (List Char))) :
    (encode writes records).foldl (read reads) ⟨.start, before, [], []⟩ =
      ⟨.start, records.reverse ++ before, [], []⟩ := by
  induction records generalizing before with
  | nil => rfl
  | cons fields records ih =>
      obtain ⟨hfields, hrecords⟩ := List.forall_mem_cons.mp h
      rw [encode, List.flatMap_cons, List.foldl_append, foldl_read_record hfields]
      change (encode writes records).foldl (read reads) _ = _
      rw [ih hrecords, List.reverse_cons, List.append_assoc]
      rfl

end Reader

theorem decode_encode {writes reads : Bool} {records : List (List (List Char))}
    (h : ∀ fields ∈ records, Reader.IsReadable writes reads fields) :
    decode reads (encode writes records) = records := by
  rw [decode, Reader.empty, Reader.foldl_read_encode h]
  simp

/-- The records of a document, as texts. -/
def read (returns : Bool) (document : String) : List (List String) :=
  (decode returns document.toList).map fun fields => fields.map String.ofList

theorem read_document {writes reads : Bool} {records : List (List String)}
    (hne : ∀ fields ∈ records, fields ≠ [])
    (hfits : ∀ fields ∈ records, ∀ field ∈ fields, Fits writes reads field.toList) :
    read reads (document writes records) = records := by
  have hfields : ∀ fields ∈ records.map fun fields => fields.map String.toList,
      Reader.IsReadable writes reads fields := by
    rw [List.forall_mem_map]
    intro fields hmem
    refine ⟨?_, List.forall_mem_map.mpr (hfits fields hmem)⟩
    rw [Ne, List.map_eq_nil_iff]
    exact hne fields hmem
  rw [read, toList_document, decode_encode hfields]
  simp [Function.comp_def]

-- A break that only the reader knows takes a field apart.
example : read true (document false [["a\rb"]]) = [["a"], ["b"]] := by decide

end TruthTables.Csv
