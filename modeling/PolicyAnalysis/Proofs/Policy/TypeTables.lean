import Mathlib.Data.List.Find
import PolicyAnalysis.Policy.Build
import PolicyAnalysis.Proofs.Checked

/-!
# What the tables of types hold

While types are entered, the index and the members of the attributes are those of the types so far. A type is
refused just if one of its names is taken, and the name that is reported is the first such.
-/

namespace PolicyAnalysis

open Checked

variable {d : Draft} {p : Policy}

namespace Policy

/-- Whether a name is that of a type, an alias or an attribute. -/
def isTaken (p : Policy) (name : String) : Bool :=
  p.types.any (·.answersTo name) || p.attributes.contains name

/-- The first of a type's names that is taken by another symbol, or that it has twice. -/
def clash? (p : Policy) (t : TypeSymbol) : Option String :=
  if p.isTaken t.name then some t.name
  else t.aliases.toList.find? fun name => name == t.name || p.isTaken name

def addType (p : Policy) (t : TypeSymbol) : Except PolicyError Policy :=
  match p.clash? t with
  | some name => .error (.duplicateSymbol name)
  | none => .ok { p with types := p.types ++ [t] }

theorem answersTo_iff (t : TypeSymbol) (name : String) :
    t.answersTo name ↔ t.name = name ∨ name ∈ t.aliases := by
  rw [TypeSymbol.answersTo, Bool.or_eq_true, beq_iff_eq, Std.ExtTreeSet.contains_iff_mem]

theorem isTaken_iff (p : Policy) (name : String) :
    p.isTaken name ↔ (∃ t ∈ p.types, t.answersTo name) ∨ name ∈ p.attributes := by
  rw [isTaken, Bool.or_eq_true, List.any_eq_true, Std.ExtTreeMap.contains_iff_mem]

theorem clash?_eq_none_iff (p : Policy) (t : TypeSymbol) :
    p.clash? t = none ↔ (∀ name, t.answersTo name → ¬ p.isTaken name) ∧ t.name ∉ t.aliases := by
  rw [clash?]
  by_cases h : p.isTaken t.name
  · rw [if_pos h]
    simp only [reduceCtorEq, false_iff, not_and]
    intro hfree
    exact absurd h (hfree t.name ((answersTo_iff t t.name).mpr (Or.inl rfl)))
  · rw [if_neg h, List.find?_eq_none]
    simp only [answersTo_iff, Std.ExtTreeSet.mem_toList, Bool.or_eq_true, beq_iff_eq, not_or]
    constructor
    · intro hfree
      refine ⟨?_, fun hname => (hfree _ hname).1 rfl⟩
      rintro name (rfl | hname)
      · exact h
      · exact (hfree name hname).2
    · rintro ⟨hfree, hname⟩ name hmem
      refine ⟨?_, hfree name (Or.inr hmem)⟩
      rintro rfl
      exact hname hmem

end Policy

/-- The names of the types that list an attribute. -/
def membersAmong (types : List TypeSymbol) (name : String) : NameSet :=
  .ofList ((types.filter (·.attributes.contains name)).map (·.name))

namespace Draft

def attributeTable (d : Draft) : NameTable Attribute :=
  .ofList (d.attributes.toList.map fun name => (name, Attribute.mk name (membersAmong d.types name)))

/-- The policy of what needs no check. -/
def start (d : Draft) : Policy :=
  d.ofTables ⟨[], ∅, d.attributeTable⟩

end Draft

theorem getElem?_ofList_map {α : Type} (names : NameSet) (f : String → α) (name : String) :
    (Std.ExtTreeMap.ofList (names.toList.map fun name => (name, f name)))[name]? =
      if name ∈ names then some (f name) else none := by
  have hkeys : (names.toList.map fun name => (name, f name)).map Prod.fst = names.toList := by
    rw [List.map_map]
    exact List.map_id _
  split
  next hname =>
    refine Std.ExtTreeMap.getElem?_ofList_of_mem Std.ReflCmp.compare_self ?_ ?_
    · exact List.pairwise_map.mpr names.distinct_toList
    · exact List.mem_map.mpr ⟨name, Std.ExtTreeSet.mem_toList.mpr hname, rfl⟩
  next hname =>
    apply Std.ExtTreeMap.getElem?_ofList_of_contains_eq_false
    rw [hkeys, Std.ExtTreeSet.contains_toList]
    exact Bool.eq_false_iff.mpr (mt Std.ExtTreeSet.contains_iff_mem.mp hname)

theorem getElem?_attributeTable (d : Draft) (name : String) :
    d.attributeTable[name]? = if name ∈ d.attributes then some ⟨name, membersAmong d.types name⟩ else none :=
  getElem?_ofList_map d.attributes (fun name => Attribute.mk name (membersAmong d.types name)) name

theorem membersAmong_concat (types : List TypeSymbol) (t : TypeSymbol) (name : String) :
    membersAmong (types ++ [t]) name =
      if name ∈ t.attributes then (membersAmong types name).insert t.name else membersAmong types name := by
  refine Std.ExtTreeSet.ext_mem fun member => ?_
  by_cases hlisted : name ∈ t.attributes
  · rw [if_pos hlisted, Std.ExtTreeSet.mem_insert, Std.compare_eq_iff_eq]
    simp [membersAmong, hlisted]
    grind
  · rw [if_neg hlisted]
    simp [membersAmong, hlisted]

namespace TypeTables

/-- The tables are those of some types that have been entered. -/
structure Filled (names : NameSet) (entered : List TypeSymbol) (tables : TypeTables) : Prop where
  types : tables.types = entered
  index : ∀ name, tables.index[name]? = entered.findIdx? (·.answersTo name)
  attributes : ∀ name, tables.attributes[name]? =
    if name ∈ names then some ⟨name, membersAmong entered name⟩ else none

variable {attributes : NameTable Attribute} {id : TypeId} {index : NameTable TypeId}

/-- The first name that is there already or that an attribute has is refused. -/
theorem foldlM_enterName {names : List String} (hnames : names.Nodup) :
    names.foldlM (enterName attributes id) index =
      (names.find? fun name => index.contains name || attributes.contains name).elim
        (.ok (names.foldl (fun index name => index.insert name id) index))
        fun name => .error (.duplicateSymbol name) := by
  induction names generalizing index with
  | nil => rfl
  | cons name names ih =>
    obtain ⟨hname, hnames⟩ := List.nodup_cons.mp hnames
    rw [List.foldlM_cons, List.find?_cons, enterName]
    cases htaken : index.contains name || attributes.contains name with
    | true => rfl
    | false =>
      have hsame : (names.find? fun name' => (index.insert name id).contains name' || attributes.contains name') =
          names.find? fun name' => index.contains name' || attributes.contains name' := by
        refine List.find?_congr fun name' hname' => ?_
        have hother : compare name name' ≠ .eq := by
          intro heq
          exact hname (Std.LawfulEqOrd.eq_of_compare heq ▸ hname')
        rw [Std.ExtTreeMap.contains_insert, beq_eq_false_iff_ne.mpr hother, Bool.false_or]
      have hrest : names.foldlM (enterName attributes id) (index.insert name id) = _ := ih hnames
      rw [hsame] at hrest
      exact hrest

theorem getElem?_foldl_insert {α : Type} (f : String → α) (names : List String) (table : NameTable α)
    (name : String) : (names.foldl (fun table name => table.insert name (f name)) table)[name]? =
      if name ∈ names then some (f name) else table[name]? := by
  induction names generalizing table with
  | nil => rfl
  | cons first names ih =>
    rw [List.foldl_cons, ih, Std.ExtTreeMap.getElem?_insert]
    by_cases hname : name ∈ names
    · rw [if_pos hname, if_pos (List.mem_cons_of_mem first hname)]
    · rw [if_neg hname]
      simp only [List.mem_cons, hname, or_false, Std.compare_eq_iff_eq]
      grind

theorem getElem?_foldl_enlist (member : String) {names : List String} (hnames : names.Nodup)
    (attributes : NameTable Attribute) (name : String) : (names.foldl (enlist member) attributes)[name]? =
      attributes[name]?.map fun a => if name ∈ names then { a with types := a.types.insert member } else a := by
  induction names generalizing attributes with
  | nil => simp
  | cons first names ih =>
    obtain ⟨hfirst, hnames⟩ := List.nodup_cons.mp hnames
    rw [List.foldl_cons, ih hnames, enlist, Std.ExtTreeMap.getElem?_modify]
    by_cases hname : first = name
    · subst hname
      rw [if_pos Std.ReflCmp.compare_self, Option.map_map]
      simp [hfirst, Function.comp_def]
    · rw [if_neg (mt Std.LawfulEqOrd.eq_of_compare hname)]
      simp only [List.mem_cons, Ne.symm hname, false_or]

def withType (tables : TypeTables) (t : TypeSymbol) : TypeTables where
  types := tables.types ++ [t]
  index := (t.name :: t.aliases.toList).foldl (fun index name => index.insert name tables.types.length) tables.index
  attributes := t.attributes.foldl (enlist t.name) tables.attributes

namespace Filled

variable {names : NameSet} {entered : List TypeSymbol} {tables : TypeTables}

theorem ofAttributes (names : NameSet) : Filled names [] (.ofAttributes names) where
  types := rfl
  index _ := Std.ExtTreeMap.getElem?_empty
  attributes name := by
    rw [TypeTables.ofAttributes, Std.ExtTreeSet.foldl_eq_foldl_toList, getElem?_foldl_insert]
    simp only [Std.ExtTreeSet.mem_toList, Std.ExtTreeMap.getElem?_empty]
    rfl

theorem isTaken_eq (h : Filled d.attributes entered tables) (name : String) :
    ({ d.start with types := entered } : Policy).isTaken name =
      (tables.index.contains name || tables.attributes.contains name) := by
  have hattribute : d.attributeTable.contains name = tables.attributes.contains name := by
    rw [Std.ExtTreeMap.contains_eq_isSome_getElem?, Std.ExtTreeMap.contains_eq_isSome_getElem?, h.attributes,
      getElem?_attributeTable]
    split <;> rfl
  have hindex : entered.any (·.answersTo name) = tables.index.contains name := by
    rw [Std.ExtTreeMap.contains_eq_isSome_getElem?, h.index, List.findIdx?_isSome]
  exact congrArg₂ or hindex hattribute

theorem enterNames_eq (h : Filled d.attributes entered tables) (t : TypeSymbol) (id : TypeId) :
    (t.name :: t.aliases.toList).foldlM (enterName tables.attributes id) tables.index =
      (({ d.start with types := entered } : Policy).clash? t).elim
        (.ok ((t.name :: t.aliases.toList).foldl (fun index name => index.insert name id) tables.index))
        fun name => .error (.duplicateSymbol name) := by
  rw [List.foldlM_cons, enterName, ← h.isTaken_eq, Policy.clash?]
  cases htaken : ({ d.start with types := entered } : Policy).isTaken t.name with
  | true => rfl
  | false =>
    have hsame : (t.aliases.toList.find? fun name =>
        (tables.index.insert t.name id).contains name || tables.attributes.contains name) =
          t.aliases.toList.find? fun name =>
            name == t.name || ({ d.start with types := entered } : Policy).isTaken name := by
      refine List.find?_congr fun name _ => ?_
      have hname : (compare t.name name == .eq) = (name == t.name) := by
        rw [Bool.eq_iff_iff, beq_iff_eq, beq_iff_eq, Std.compare_eq_iff_eq, eq_comm]
      rw [h.isTaken_eq, Std.ExtTreeMap.contains_insert, Bool.or_assoc, hname]
    have hrest : t.aliases.toList.foldlM (enterName tables.attributes id) (tables.index.insert t.name id) = _ :=
      foldlM_enterName (nodup_toList t.aliases)
    rw [hsame] at hrest
    exact hrest

theorem add_eq (h : Filled d.attributes entered tables) (t : TypeSymbol) :
    tables.add t = (({ d.start with types := entered } : Policy).clash? t).elim (.ok (tables.withType t))
      fun name => .error (.duplicateSymbol name) := by
  rw [TypeTables.add, h.enterNames_eq t]
  cases ({ d.start with types := entered } : Policy).clash? t <;> rfl

theorem withType (h : Filled d.attributes entered tables) {t : TypeSymbol}
    (hclash : ({ d.start with types := entered } : Policy).clash? t = none) :
    Filled d.attributes (entered ++ [t]) (tables.withType t) where
  types := congrArg (· ++ [t]) h.types
  index name := by
    have hanswers : name ∈ t.name :: t.aliases.toList ↔ t.answersTo name := by
      rw [Policy.answersTo_iff, List.mem_cons, Std.ExtTreeSet.mem_toList, eq_comm]
    rw [TypeTables.withType, getElem?_foldl_insert fun _ => tables.types.length, h.index, h.types,
      List.findIdx?_append]
    by_cases hname : t.answersTo name
    · have hfree := ((Policy.clash?_eq_none_iff _ t).mp hclash).1 name hname
      have hnone : entered.findIdx? (·.answersTo name) = none := by
        refine List.findIdx?_eq_none_iff.mpr fun u hu => Bool.eq_false_iff.mpr fun huname => ?_
        exact hfree ((Policy.isTaken_iff _ name).mpr (Or.inl ⟨u, hu, huname⟩))
      rw [if_pos (hanswers.mpr hname), hnone]
      simp [hname]
    · rw [if_neg (mt hanswers.mp hname)]
      simp [hname]
  attributes name := by
    rw [TypeTables.withType, Std.ExtTreeSet.foldl_eq_foldl_toList,
      getElem?_foldl_enlist t.name (nodup_toList t.attributes), h.attributes, membersAmong_concat]
    simp only [Std.ExtTreeSet.mem_toList]
    by_cases hdeclared : name ∈ d.attributes
    · rw [if_pos hdeclared, if_pos hdeclared, Option.map_some]
      split <;> rfl
    · rw [if_neg hdeclared, if_neg hdeclared]
      rfl

/-- What comes of entering types in the tables and of adding them to a policy. -/
inductive Entered (d : Draft) (types : List TypeSymbol) :
    Except PolicyError TypeTables → Except PolicyError Policy → Prop
  | refused (e : PolicyError) : Entered d types (.error e) (.error e)
  | filled (tables : TypeTables) (h : Filled d.attributes types tables) :
    Entered d types (.ok tables) (.ok { d.start with types })

theorem entered_foldlM (h : Filled d.attributes entered tables) (types : List TypeSymbol) :
    Entered d (entered ++ types) (types.foldlM TypeTables.add tables)
      (types.foldlM Policy.addType { d.start with types := entered }) := by
  induction types generalizing entered tables with
  | nil =>
    rw [List.append_nil]
    exact .filled tables h
  | cons t types ih =>
    rw [List.foldlM_cons, List.foldlM_cons, h.add_eq, Policy.addType]
    cases hclash : ({ d.start with types := entered } : Policy).clash? t with
    | some name => exact .refused (.duplicateSymbol name)
    | none =>
      have hrest := ih (h.withType hclash)
      rwa [List.append_assoc] at hrest

end Filled

theorem entered_fill (d : Draft) :
    Filled.Entered d d.types (fill d.types d.attributes) (d.types.foldlM Policy.addType d.start) :=
  (Filled.ofAttributes d.attributes).entered_foldlM d.types

theorem Filled.ofTables_eq {tables : TypeTables} (h : Filled d.attributes d.types tables) :
    d.ofTables tables = { d.start with types := d.types } := by
  have hattributes : tables.attributes = d.attributeTable := by
    refine Std.ExtTreeMap.ext_getElem? fun {name} => ?_
    rw [h.attributes, getElem?_attributeTable]
  rw [Draft.ofTables, h.types, hattributes]
  rfl

theorem Filled.Entered.bind_eq {filled : Except PolicyError TypeTables} {added : Except PolicyError Policy}
    (h : Filled.Entered d d.types filled added) :
    (filled >>= fun tables => d.complete (d.ofTables tables)) = added >>= d.complete := by
  cases h with
  | refused e => rfl
  | filled tables h => exact congrArg d.complete h.ofTables_eq

namespace Filled

variable {names : NameSet} {tables : TypeTables}

/-- The index has what a search through the types finds. -/
theorem lookupType_eq (h : Filled names p.types tables) (name : String) :
    tables.lookupType name = p.lookupType name := by
  rewrite [lookupType, Policy.lookupType, h.index]
  cases p.types.findIdx? (·.answersTo name) <;> rfl

theorem lookupTypeOrAttribute_eq (h : Filled names p.types tables) (hattributes : tables.attributes = p.attributes)
    (name : String) : tables.lookupTypeOrAttribute name = p.lookupTypeOrAttribute name := by
  rewrite [lookupTypeOrAttribute, Policy.lookupTypeOrAttribute, h.index, hattributes]
  cases p.types.findIdx? (·.answersTo name) with
  | some id => rfl
  | none => cases p.attributes[name]? <;> rfl

theorem expand_eq (h : Filled names p.types tables) (hattributes : tables.attributes = p.attributes)
    (name : String) : tables.expand name = p.expand name := by
  have hlookup : tables.lookupType = p.lookupType := funext h.lookupType_eq
  rewrite [expand, Policy.expand, h.lookupTypeOrAttribute_eq hattributes, hlookup]
  cases p.lookupTypeOrAttribute name with
  | error e => rfl
  | ok x => cases x <;> rfl

end Filled

end TypeTables

/-- A draft is built as if its types were added to a policy that has the attributes with all their members. -/
theorem Draft.build_eq_addTypes (d : Draft) :
    d.build = (do
      if let some e := d.fault then throw e
      let p ← d.types.foldlM Policy.addType d.start
      d.complete p) := by
  rw [Draft.build]
  cases d.fault with
  | some e => rfl
  | none => exact (TypeTables.entered_fill d).bind_eq

theorem Draft.exists_fill_of_build (h : d.build = .ok p) :
    ∃ tables, TypeTables.fill d.types d.attributes = .ok tables ∧ TypeTables.Filled d.attributes d.types tables := by
  have hfill : ∃ tables, TypeTables.fill d.types d.attributes = .ok tables := by
    rw [Draft.build] at h
    split at h
    · cases h
    · obtain ⟨tables, hfill, -⟩ := bind_eq_ok.mp h
      exact ⟨tables, hfill⟩
  obtain ⟨tables, hfill⟩ := hfill
  have hentered := TypeTables.entered_fill d
  rw [hfill] at hentered
  generalize d.types.foldlM Policy.addType d.start = added at hentered
  cases hentered with
  | filled _ hfilled => exact ⟨tables, hfill, hfilled⟩

end PolicyAnalysis
