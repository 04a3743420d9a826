import PolicyAnalysis.Proofs.Toml.Draft
import PolicyAnalysis.Proofs.Toml.Values

/-!
# TOML documents are read back

Each line of a document changes the draft in a known way, so the lines of a table fill it value by value, and the
tables in it follow one after the other. A document is read back if in every table the values come before the tables,
which is the order they are written in, and no key is there twice.
-/

namespace PolicyAnalysis.Toml

open Node

variable {rest cs text text' : List Char} {c : Char} {fuel : Nat} {d d' d'' : Draft} {key : String} {v : Toml}
  {path header : List String} {entries child : Entries} {put : Entries → Entries}

/-- A text takes one draft to another, whatever stands behind it. -/
def Reads (d : Draft) (text : List Char) (d' : Draft) : Prop :=
  ∀ (rest : List Char) (fuel : Nat), (text ++ rest).length ≤ fuel →
    ∃ fuel', rest.length ≤ fuel' ∧ lines? fuel d (text ++ rest) = lines? fuel' d' rest

theorem Reads.refl (d : Draft) : Reads d [] d :=
  fun _ fuel hfuel => ⟨fuel, hfuel, rfl⟩

theorem Reads.trans (h : Reads d text d') (h' : Reads d' text' d'') : Reads d (text ++ text') d'' := by
  intro rest fuel hfuel
  rw [List.append_assoc] at hfuel ⊢
  obtain ⟨fuel', hfuel', heq⟩ := h (text' ++ rest) fuel hfuel
  obtain ⟨fuel'', hfuel'', heq'⟩ := h' rest fuel' hfuel'
  exact ⟨fuel'', hfuel'', heq.trans heq'⟩

/-- A text that is read to its end leaves the draft. -/
theorem Reads.lines? (h : Reads d text d') : Toml.lines? text.length d text = some d' := by
  obtain ⟨fuel, -, heq⟩ := h [] text.length (Nat.le_of_eq (by rw [List.append_nil]))
  rw [List.append_nil] at heq
  rw [heq]
  cases fuel <;> rfl

/-- A line takes one of the fuel and a character at least. -/
theorem Reads.of_line (hne : text ≠ [])
    (h : ∀ (rest : List Char) (fuel : Nat), Toml.lines? (fuel + 1) d (text ++ rest) = Toml.lines? fuel d' rest) :
    Reads d text d' := by
  intro rest fuel hfuel
  have hpos := List.length_pos_of_ne_nil hne
  rw [List.length_append] at hfuel
  obtain ⟨fuel, rfl⟩ : ∃ m, fuel = m + 1 := Nat.exists_eq_add_one.mpr (by omega)
  exact ⟨fuel, by omega, h rest fuel⟩

theorem reads_newline (d : Draft) : Reads d ['\n'] d :=
  .of_line (List.cons_ne_nil _ _) fun _ _ => rfl

theorem lines?_key (hc : isBare c ∨ c = '"' ∨ c = '\'') (d : Draft) (cs : List Char) :
    lines? (fuel + 1) d (c :: cs) = (pairLine? d (c :: cs)).bind fun (d, rest) => lines? fuel d rest := by
  have hne {e : Char} (he : ¬ (isBare e ∨ e = '"' ∨ e = '\'')) : c ≠ e := fun heq => he (heq ▸ hc)
  have hspace : ¬ isSpace c := by
    simp only [isSpace, Bool.or_eq_true, beq_iff_eq]
    exact not_or.mpr ⟨hne (by decide), hne (by decide)⟩
  rw [lines?.eq_5 d (c :: cs) fuel c cs (hne (by decide)) (hne (by decide)) (List.dropWhile_cons_of_neg hspace), if_neg]
  · rfl
  · exact not_or.mpr ⟨hne (by decide), hne (by decide)⟩

theorem lines?_header (d : Draft) (cs : List Char) :
    lines? (fuel + 1) d ('[' :: cs) = (headerLine? d ('[' :: cs)).bind fun (d, rest) => lines? fuel d rest :=
  rfl

def pairChars (key : String) (v : Toml) : List Char :=
  keyChars key.toList ++ ' ' :: '=' :: ' ' :: (valueChars v ++ ['\n'])

theorem endsKey_equals (cs : List Char) : EndsKey (' ' :: '=' :: cs) where
  head := by
    rintro c ⟨⟩
    decide
  noDot := by
    rintro tail ⟨⟩

theorem skipSpace_valueChars {m : Nat} (h : Plain m v) (rest : List Char) :
    skipSpace (' ' :: (valueChars v ++ rest)) = valueChars v ++ rest := by
  obtain ⟨c, tail, heq, hc⟩ := exists_valueChars h
  have hspace : ¬ isSpace c := by
    simp only [isSpace, Bool.or_eq_true, beq_iff_eq]
    rintro (rfl | rfl) <;> exact hc (by decide)
  rw [skipSpace, List.dropWhile_cons_of_pos (by decide), heq, List.cons_append, List.dropWhile_cons_of_neg hspace]

theorem pairLine?_pairChars (d : Draft) (h : Inline v) (key : String) (rest : List Char) :
    pairLine? d (pairChars key v ++ rest) = (d.assign? [key] v).map fun d => (d, rest) := by
  obtain ⟨m, hm, h⟩ := h
  have hkey := key?_pathChars (endsKey_equals (' ' :: (valueChars v ++ '\n' :: rest))) (List.cons_ne_nil key [])
    (show 1 < maxDepth by decide)
  have hvalue : value? (2 * (valueChars v ++ '\n' :: rest).length + 2) 0 (valueChars v ++ '\n' :: rest) =
      some (v, '\n' :: rest) :=
    value?_valueChars h (by omega) (by rw [List.length_append]; omega) (endsValue_cons (Or.inr (Or.inr rfl)))
  have htext : pairChars key v ++ rest = pathChars [key] ++ ' ' :: '=' :: ' ' :: (valueChars v ++ '\n' :: rest) := by
    rw [pathChars_singleton, pairChars]
    simp
  have hskip : skip? '=' (skipSpace (' ' :: '=' :: ' ' :: (valueChars v ++ '\n' :: rest))) =
      some (' ' :: (valueChars v ++ '\n' :: rest)) :=
    rfl
  have hend : endLine? ('\n' :: rest) = some rest := rfl
  rw [htext, pairLine?, hkey]
  simp only [Option.bind_eq_bind, Option.bind_some, hskip, skipSpace_valueChars h, hvalue, hend, Option.map_eq_bind]
  rfl

/-- A line with a key and a value adds them to the table that is being filled. -/
theorem reads_pair (hleads : Leads header entries child put) (hkey : child.lookup key = none) (h : Inline v) :
    Reads ⟨entries, header⟩ (pairChars key v) ⟨put (child ++ [(key, .value v)]), header⟩ := by
  have hassign : (⟨entries, header⟩ : Draft).assign? [key] v =
      some ⟨put (child ++ [(key, .value v)]), header⟩ := by
    have hchange := hleads.assign? hkey v
    simp [Draft.assign?, hchange]
  obtain ⟨c, tail, hhead, hc⟩ := exists_keyChars key.toList
  have htext : pairChars key v = c :: (tail ++ ' ' :: '=' :: ' ' :: (valueChars v ++ ['\n'])) := by
    rw [pairChars, hhead, List.cons_append]
  refine .of_line (htext ▸ List.cons_ne_nil _ _) fun rest fuel => ?_
  have hpair := pairLine?_pairChars ⟨entries, header⟩ h key rest
  rw [htext, List.cons_append] at hpair ⊢
  rw [lines?_key hc, hpair, hassign]
  rfl

def headerChars (path : List String) : List Char :=
  '[' :: (pathChars path ++ [']', '\n'])

theorem endsKey_bracket (cs : List Char) : EndsKey (']' :: cs) where
  head := by
    rintro c ⟨⟩
    decide
  noDot := by
    rintro tail ⟨⟩

theorem headerLine?_headerChars (d : Draft) (hpath : path ≠ []) (hlength : path.length < maxDepth) (rest : List Char) :
    headerLine? d (headerChars path ++ rest) = (d.openHeader? false path).map fun d => (d, rest) := by
  have hkey := key?_pathChars (endsKey_bracket ('\n' :: rest)) hpath hlength
  have hskip : skip? ']' (skipSpace (']' :: '\n' :: rest)) = some ('\n' :: rest) := rfl
  have hend : endLine? ('\n' :: rest) = some rest := rfl
  have htext : headerChars path ++ rest = '[' :: (pathChars path ++ ']' :: '\n' :: rest) := by
    rw [headerChars]
    simp
  obtain ⟨c, tail, heq, hc⟩ := exists_pathChars hpath
  rw [htext]
  delta headerLine?
  split
  next h =>
    -- A second bracket would be the start of a key.
    rw [heq] at h
    cases h
    exact absurd hc (by decide)
  next h =>
    cases h
    simp only [hkey, Option.bind_eq_bind, Option.bind_some, hskip, hend, Option.map_eq_bind]
    rfl
  next h => exact absurd rfl (h _)

/-- A header opens a new table in one that its path leads to. -/
theorem reads_header (header : List String) (hleads : Leads path entries child put) (hkey : child.lookup key = none)
    (hlength : path.length + 1 < maxDepth) :
    Reads ⟨entries, header⟩ (headerChars (path ++ [key]))
      ⟨put (child ++ [(key, .table .written [])]), path ++ [key]⟩ := by
  have hopen : (⟨entries, header⟩ : Draft).openHeader? false (path ++ [key]) =
      some ⟨put (child ++ [(key, .table .written [])]), path ++ [key]⟩ := by
    have hchange := hleads.openTable? hkey
    simp [Draft.openHeader?, hchange]
  have hpath : path ++ [key] ≠ [] := List.append_ne_nil_of_right_ne_nil path (List.cons_ne_nil key [])
  refine .of_line (List.cons_ne_nil _ _) fun rest fuel => ?_
  have hline := headerLine?_headerChars ⟨entries, header⟩ hpath
    (by rwa [List.length_append, List.length_singleton]) rest
  rw [headerChars, List.cons_append] at hline ⊢
  rw [lines?_header, hline, hopen]
  rfl

def pairsChars (values : List (String × Toml)) : List Char :=
  values.flatMap fun e => pairChars e.1 e.2

def valueNodes (values : List (String × Toml)) : Entries :=
  values.map fun e => (e.1, .value e.2)

theorem tomlEntries_valueNodes (values : List (String × Toml)) : tomlEntries (valueNodes values) = values := by
  induction values with
  | nil => rfl
  | cons e values ih =>
    rw [valueNodes, List.map_cons, tomlEntries, ← valueNodes, ih]
    rfl

theorem keys_valueNodes (values : List (String × Toml)) :
    (valueNodes values).map Prod.fst = values.map Prod.fst := by
  rw [← keys_tomlEntries, tomlEntries_valueNodes]

theorem reads_pairs {values : List (String × Toml)} (hleads : Leads header entries child put)
    (hvalues : ∀ e ∈ values, Inline e.2)
    (hkeys : (child.map Prod.fst ++ values.map Prod.fst).Nodup) (hentries : values = [] → entries = put child) :
    Reads ⟨entries, header⟩ (pairsChars values) ⟨put (child ++ valueNodes values), header⟩ := by
  induction values generalizing entries child with
  | nil =>
    rw [hentries rfl, valueNodes, List.map_nil, List.append_nil]
    exact Reads.refl _
  | cons e values ih =>
    obtain ⟨hvalue, hvalues⟩ := List.forall_mem_cons.mp hvalues
    have hkey : e.1 ∉ child.map Prod.fst := fun hmem =>
      (List.nodup_append.mp hkeys).2.2 e.1 hmem e.1 List.mem_cons_self rfl
    have hpair := reads_pair hleads (lookup_eq_none hkey) hvalue
    have hnext := ih (hleads.put_child (child ++ [(e.1, .value e.2)])) hvalues (by simpa using hkeys) fun _ => rfl
    rw [List.append_assoc] at hnext
    exact hpair.trans hnext

/-- Sections take one draft to another, each after an empty line. -/
inductive ReadsAll : Draft → List String → Draft → Prop
  | nil (d : Draft) : ReadsAll d [] d
  | cons {d d' d'' : Draft} {text : String} {texts : List String} (h : Reads d text.toList d')
      (hs : ReadsAll d' texts d'') : ReadsAll d (text :: texts) d''

theorem ReadsAll.append {texts texts' : List String} (h : ReadsAll d texts d') (h' : ReadsAll d' texts' d'') :
    ReadsAll d (texts ++ texts') d'' := by
  induction h with
  | nil d => exact h'
  | cons hread _ ih => exact .cons hread (ih h')

theorem ReadsAll.reads {texts : List String} (h : ReadsAll d texts d') :
    Reads d ("\n".intercalate texts).toList d' := by
  rw [String.toList_intercalate]
  induction h with
  | nil d => exact Reads.refl d
  | @cons d d' d'' text texts hread hs ih =>
    cases texts with
    | nil =>
      cases hs
      rw [List.map_singleton, List.intercalate_singleton]
      exact hread
    | cons text' texts =>
      rw [List.map_cons, List.map_cons, List.intercalate_cons_cons]
      exact (hread.trans (reads_newline d')).trans ih

def tableEntries (tables : List (String × List (String × Toml))) : List (String × Toml) :=
  tables.map fun e => (e.1, .table e.2)

/-- The tables that are read back: each has values on one line first, then tables, and no key twice; tables are nested
less than `d` deep. -/
inductive Canonical : Nat → List (String × Toml) → Prop
  | intro {d : Nat} {values : List (String × Toml)} {tables : List (String × List (String × Toml))}
      (hkeys : (values.map Prod.fst ++ tables.map Prod.fst).Nodup)
      (hvalues : ∀ e ∈ values, Inline e.2) (htables : ∀ e ∈ tables, Canonical d e.2) :
      Canonical (d + 1) (values ++ tableEntries tables)

theorem canonical_values {d : Nat} {values : List (String × Toml)} (hkeys : (values.map Prod.fst).Nodup)
    (hvalues : ∀ e ∈ values, Inline e.2) : Canonical (d + 1) values := by
  have h : Canonical (d + 1) (values ++ tableEntries []) :=
    .intro (by rwa [List.map_nil, List.append_nil]) hvalues (List.forall_mem_nil _)
  rwa [tableEntries, List.map_nil, List.append_nil] at h

section Printing

variable {values : List (String × Toml)} {tables : List (String × List (String × Toml))}

theorem filter_values (hvalues : ∀ e ∈ values, Inline e.2) :
    ((values ++ tableEntries tables).filter fun e => !e.2.isTable) = values := by
  have hkeep : values.filter (fun e => !e.2.isTable) = values := by
    rw [List.filter_eq_self]
    intro e he
    obtain ⟨m, -, h⟩ := hvalues e he
    rw [Bool.not_eq_true', ← Bool.not_eq_true]
    exact h.not_isTable
  have hdrop : (tableEntries tables).filter (fun e => !e.2.isTable) = [] := by
    rw [List.filter_eq_nil_iff, tableEntries, List.forall_mem_map]
    exact fun _ _ => Bool.false_ne_true
  rw [List.filter_append, hkeep, hdrop, List.append_nil]

theorem toList_inlineEntries (values : List (String × Toml)) :
    (String.join ((inlineEntries values).map (· ++ "\n"))).toList = pairsChars values := by
  rw [String.toList_join]
  induction values with
  | nil => rfl
  | cons e values ih =>
    rw [inlineEntries, List.map_cons, List.flatMap_cons, ih]
    simp [pairsChars, pairChars, valueChars]

theorem toList_headerText (path : List String) : (headerText path).toList = headerChars path := by
  rw [headerText, String.toList_append, String.toList_append, String.toList_intercalate, List.map_map]
  simp [headerChars, pathChars, Function.comp_def]

/-- A table without values has no header, unless it is empty. -/
theorem section?_eq_none {path : List String}
    (h : path = [] ∨ tables ≠ []) : section? path (tableEntries tables) = none := by
  have hvalues : (tableEntries tables).filter (fun e => !e.2.isTable) = [] := filter_values (List.forall_mem_nil _)
  rw [section?, hvalues, if_pos]
  rw [tableEntries, List.isEmpty_iff, List.isEmpty_iff, List.isEmpty_iff, List.map_eq_nil_iff]
  exact ⟨rfl, h⟩

/-- The lines of a table, after its header if it has one. -/
theorem exists_section? (hvalues : ∀ e ∈ values, Inline e.2) (path : List String)
    (h : values ≠ [] ∨ path ≠ [] ∧ tables = []) :
    ∃ text, section? path (values ++ tableEntries tables) = some text ∧
      text.toList = (if path = [] then [] else headerChars path) ++ pairsChars values := by
  refine ⟨(if path.isEmpty then "" else headerText path) ++ String.join ((inlineEntries values).map (· ++ "\n")),
    ?_, ?_⟩
  · rw [section?, filter_values hvalues, if_neg]
    simp only [List.isEmpty_iff, List.append_eq_nil_iff, tableEntries, List.map_eq_nil_iff]
    rintro ⟨hnil, hpath⟩
    rcases h with hne | ⟨hne, htables⟩
    · exact hne hnil
    · exact hpath.elim hne fun h => h ⟨hnil, htables⟩
  · rw [String.toList_append, toList_inlineEntries]
    simp only [List.isEmpty_iff]
    split
    next => rfl
    next => rw [toList_headerText]

theorem innerSections_append (path : List String) (entries entries' : List (String × Toml)) :
    innerSections path (entries ++ entries') = innerSections path entries ++ innerSections path entries' := by
  induction entries with
  | nil => rfl
  | cons e entries ih => rw [List.cons_append, innerSections, innerSections, ih, List.append_assoc]

theorem innerSections_values (hvalues : ∀ e ∈ values, Inline e.2) (path : List String) :
    innerSections path values = [] := by
  induction values with
  | nil => rfl
  | cons e values ih =>
    obtain ⟨⟨m, -, h⟩, hvalues⟩ := List.forall_mem_cons.mp hvalues
    rw [innerSections, ih hvalues, List.append_nil]
    exact h.sections_eq_nil _

end Printing

/-- A table is read back from its sections, wherever it stands, unless that is too deep. -/
def ReadBack (d : Nat) (inner : List (String × Toml)) : Prop :=
  ∀ (header : List String) {path : List String} {key : String} {entries child : Entries} {put : Entries → Entries},
    Leads path entries child put → child.lookup key = none → path.length + d < maxDepth →
    ∃ header' origin nodes, tomlEntries nodes = inner ∧
      ReadsAll ⟨entries, header⟩ (sections (path ++ [key]) (.table inner))
        ⟨put (child ++ [(key, .table origin nodes)]), header'⟩

/-- The tables in a table are added to what it holds. -/
theorem readsAll_tables {d : Nat} (header : List String) {tables : List (String × List (String × Toml))}
    (h : ∀ e ∈ tables, ReadBack d e.2) (hleads : Leads path entries child put)
    (hkeys : (child.map Prod.fst ++ tables.map Prod.fst).Nodup) (hlength : path.length + d < maxDepth)
    (hentries : tables = [] → entries = put child) :
    ∃ header' nodes, tomlEntries nodes = tableEntries tables ∧
      ReadsAll ⟨entries, header⟩ (innerSections path (tableEntries tables)) ⟨put (child ++ nodes), header'⟩ := by
  induction tables generalizing entries child header with
  | nil =>
    refine ⟨header, [], rfl, ?_⟩
    rw [hentries rfl, List.append_nil]
    exact .nil _
  | cons e tables ih =>
    obtain ⟨htable, htables⟩ := List.forall_mem_cons.mp h
    have hkey : e.1 ∉ child.map Prod.fst := fun hmem =>
      (List.nodup_append.mp hkeys).2.2 e.1 hmem e.1 List.mem_cons_self rfl
    obtain ⟨header', origin, nodes, hnodes, hread⟩ := htable header hleads (lookup_eq_none hkey) hlength
    obtain ⟨header'', nodes', hnodes', hread'⟩ :=
      ih header' htables (hleads.put_child (child ++ [(e.1, .table origin nodes)])) (by simpa using hkeys)
        fun _ => rfl
    refine ⟨header'', (e.1, .table origin nodes) :: nodes', ?_, ?_⟩
    · rw [tomlEntries, toToml, hnodes, hnodes']
      rfl
    · rw [List.append_assoc] at hread'
      exact hread.append hread'

theorem Canonical.readBack {d : Nat} {inner : List (String × Toml)} (h : Canonical d inner) : ReadBack d inner := by
  induction h with
  | @intro d values tables hkeys hvalues _ ih =>
    intro header path key entries child put hleads hkey hlength
    have hpath : path ++ [key] ≠ [] := List.append_ne_nil_of_right_ne_nil path (List.cons_ne_nil key [])
    have hinner : (path ++ [key]).length + d < maxDepth := by
      rw [List.length_append, List.length_singleton]
      omega
    have hsections : innerSections (path ++ [key]) (values ++ tableEntries tables) =
        innerSections (path ++ [key]) (tableEntries tables) := by
      rw [innerSections_append, innerSections_values hvalues, List.nil_append]
    rw [sections, hsections]
    by_cases hvoid : values = [] ∧ tables ≠ []
    · -- The first of its own tables makes it.
      obtain ⟨rfl, hne⟩ := hvoid
      obtain ⟨header', nodes, hnodes, hread⟩ :=
        readsAll_tables header ih (hleads.passed hkey) hkeys hinner fun h => absurd h hne
      refine ⟨header', .passed, nodes, hnodes, ?_⟩
      rw [List.nil_append, section?_eq_none (Or.inr hne)]
      exact hread
    · have hfull : values ≠ [] ∨ path ++ [key] ≠ [] ∧ tables = [] := by
        by_cases hnil : values = []
        · exact Or.inr ⟨hpath, not_not.mp fun hne => hvoid ⟨hnil, hne⟩⟩
        · exact Or.inl hnil
      obtain ⟨text, htext, hchars⟩ := exists_section? hvalues (path ++ [key]) hfull
      rw [if_neg hpath] at hchars
      have hopened := hleads.table hkey .written []
      have hheader := reads_header header hleads hkey (by omega)
      have hpairs := reads_pairs hopened hvalues (List.nodup_append.mp hkeys).1 fun _ => rfl
      have hsection : Reads ⟨entries, header⟩ text.toList
          ⟨put (child ++ [(key, .table .written (valueNodes values))]), path ++ [key]⟩ := by
        rw [hchars]
        exact hheader.trans hpairs
      obtain ⟨header', nodes, hnodes, hread⟩ :=
        readsAll_tables (path ++ [key]) ih (hopened.put_child (valueNodes values))
          (by rwa [keys_valueNodes]) hinner fun _ => rfl
      refine ⟨header', .written, valueNodes values ++ nodes, ?_, ?_⟩
      · rw [tomlEntries_append, tomlEntries_valueNodes, hnodes]
      · rw [htext]
        exact .cons hsection hread

/-- The sections of a document make its tables. -/
theorem Canonical.readsAll {d : Nat} {doc : List (String × Toml)} (h : Canonical d doc) (hd : d ≤ maxDepth) :
    ∃ header nodes, tomlEntries nodes = doc ∧
      ReadsAll .empty (sections [] (.table doc)) ⟨nodes, header⟩ := by
  cases h with
  | @intro d values tables hkeys hvalues htables =>
    have hback (e) (he : e ∈ tables) : ReadBack d e.2 := (htables e he).readBack
    have hsections : innerSections [] (values ++ tableEntries tables) = innerSections [] (tableEntries tables) := by
      rw [innerSections_append, innerSections_values hvalues, List.nil_append]
    obtain ⟨header, nodes, hnodes, hread⟩ := readsAll_tables [] hback (Leads.root (valueNodes values))
      (by rwa [keys_valueNodes]) (by rw [List.length_nil]; omega) fun _ => rfl
    refine ⟨header, valueNodes values ++ nodes, ?_, ?_⟩
    · rw [tomlEntries_append, tomlEntries_valueNodes, hnodes]
    · rw [sections, hsections]
      by_cases hnil : values = []
      · rw [hnil, List.nil_append, section?_eq_none (Or.inl rfl)]
        rw [hnil] at hread
        exact hread
      · obtain ⟨text, htext, hchars⟩ := exists_section? hvalues [] (Or.inl hnil)
        have hpairs := reads_pairs (Leads.root []) hvalues (List.nodup_append.mp hkeys).1 fun _ => rfl
        rw [htext]
        refine .cons ?_ hread
        rw [hchars]
        exact hpairs

/-- No line starts with a byte order mark. -/
theorem lines?_mark (d : Draft) (cs : List Char) : lines? (fuel + 1) d ('\uFEFF' :: cs) = none := by
  rw [lines?.eq_5 d ('\uFEFF' :: cs) fuel '\uFEFF' cs (by decide) (by decide) rfl, if_neg (by decide)]
  rfl

/-- Documents are read back from what is written for them. -/
theorem parse?_print {d : Nat} {doc : List (String × Toml)} (h : Canonical d doc) (hd : d ≤ maxDepth) :
    parse? (print doc) = some doc := by
  obtain ⟨header, nodes, hnodes, hread⟩ := h.readsAll hd
  have hlines := hread.reads.lines?
  rw [← print] at hlines
  delta parse?
  split
  next cs heq =>
    rw [heq, List.length_cons, lines?_mark] at hlines
    cases hlines
  next =>
    exact (congrArg (Option.map fun d : Draft => tomlEntries d.entries) hlines).trans (congrArg some hnodes)

end PolicyAnalysis.Toml
