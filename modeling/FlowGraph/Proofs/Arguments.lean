import FlowGraph.CommandLine.Arguments
import Mathlib.Data.List.Basic
import Mathlib.Data.List.Induction
import Mathlib.Data.Nat.Digits.Defs

/-!
# What the runner accepts

The arguments of the runner are a sequence of groups: an option with its value, or a graph file.  An
option takes whatever comes next, so an argument that looks like an option may be a value, and only
reading from left to right tells the two apart.

A sequence of groups is accepted if it has one graph file at most, and has one or a sample
(`Arguments.Complete`); nothing else is accepted.  Each group sets its own part of what was read, so
what all of them come to is told by the values of each kind (`Arguments.gathered`), and the order
among groups of different kinds does not matter.
-/

namespace FlowGraph

namespace Arguments

/-! ## Numbers -/

/-- The characters are decimal digits of the number; zeros may come first. -/
def Digits (cs : List Char) (n : Nat) : Prop :=
  ∃ digits : List Nat, digits ≠ [] ∧ (∀ d ∈ digits, d < 10) ∧ cs = digits.map Nat.digitChar ∧
    n = Nat.ofDigits 10 digits.reverse

/-- The text is a decimal number after an optional plus. -/
def Numeral (text : String) (n : Nat) : Prop :=
  ∃ cs, Digits cs n ∧ (text.toList = cs ∨ text.toList = '+' :: cs)

theorem Digits.no_plus {cs : List Char} {n : Nat} (h : Digits ('+' :: cs) n) : False := by
  obtain ⟨digits, -, -, hcs, -⟩ := h
  cases digits with
  | nil => cases hcs
  | cons d digits =>
    exact Nat.digitChar_ne '+' (by decide) (List.cons.inj hcs).1.symm

theorem digitChar_of_isDigit {c : Char} (h : c.isDigit = true) :
    c.toNat - 48 < 10 ∧ Nat.digitChar (c.toNat - 48) = c := by
  have hrange : 48 ≤ c.toNat ∧ c.toNat ≤ 57 := by
    simpa [Char.isDigit, UInt32.le_iff_toNat_le] using h
  have hdigit : c.toNat - 48 < 10 := by omega
  refine ⟨hdigit, Char.toNat_inj.mp ?_⟩
  rw [Nat.toNat_digitChar_of_lt_ten hdigit]
  omega

theorem foldl_digits (digits : List Nat) :
    digits.foldl (fun n d => n * 10 + d) 0 = Nat.ofDigits 10 digits.reverse := by
  rw [List.foldl_eq_foldr_reverse, Nat.ofDigits_eq_foldr]
  simp only [Nat.cast_id, Nat.mul_comm, Nat.add_comm]

theorem decimal?_eq_some_iff {cs : List Char} {n : Nat} : decimal? cs = some n ↔ Digits cs n := by
  constructor
  · intro h
    cases cs with
    | nil => cases h
    | cons c cs =>
      rw [decimal?.eq_2 _ (List.cons_ne_nil c cs)] at h
      split at h
      · next hall =>
        have hdigit : ∀ x ∈ c :: cs, x.isDigit = true := List.all_eq_true.mp hall
        refine ⟨(c :: cs).map fun x => x.toNat - 48, List.cons_ne_nil _ _, ?_, ?_, ?_⟩
        · intro d hd
          obtain ⟨x, hx, rfl⟩ := List.mem_map.mp hd
          exact (digitChar_of_isDigit (hdigit x hx)).1
        · have hsame : (c :: cs).map (Nat.digitChar ∘ fun x => x.toNat - 48) = (c :: cs).map id :=
            List.map_congr_left fun x hx => (digitChar_of_isDigit (hdigit x hx)).2
          rw [List.map_map, hsame, List.map_id]
        · rw [← foldl_digits, List.foldl_map]
          exact (Option.some.inj h).symm
      · cases h
  · intro h
    obtain ⟨digits, hne, hten, rfl, rfl⟩ := h
    have hall : (digits.map Nat.digitChar).all Char.isDigit = true := by
      refine List.all_eq_true.mpr fun c hc => ?_
      obtain ⟨x, hx, rfl⟩ := List.mem_map.mp hc
      rw [Nat.isDigit_digitChar]
      exact decide_eq_true (hten x hx)
    have hsome : digits.map Nat.digitChar ≠ [] := fun hnil => hne (List.map_eq_nil_iff.mp hnil)
    rw [decimal?.eq_2 _ hsome, if_pos hall, List.foldl_map, ← foldl_digits]
    refine congrArg some (List.foldl_ext _ _ 0 fun n x hx => ?_)
    rw [Nat.toNat_digitChar_of_lt_ten (hten x hx), Nat.add_sub_cancel_left]

/-- The characters without a plus in front. -/
def unsigned : List Char → List Char
  | '+' :: cs => cs
  | cs => cs

theorem digits_unsigned_iff {text : String} {n : Nat} :
    Digits (unsigned text.toList) n ↔ Numeral text n := by
  unfold unsigned
  split
  · next cs htext =>
    constructor
    · exact fun h => ⟨cs, h, .inr htext⟩
    · intro h
      obtain ⟨ds, hds, htext' | htext'⟩ := h
      · exact (Digits.no_plus (htext'.symm.trans htext ▸ hds)).elim
      · rw [htext] at htext'
        exact (List.cons.inj htext').2 ▸ hds
  · next hplain =>
    constructor
    · exact fun h => ⟨_, h, .inl rfl⟩
    · intro h
      obtain ⟨ds, hds, htext' | htext'⟩ := h
      · exact htext' ▸ hds
      · exact (hplain ds htext').elim

theorem nodeId?_eq_some_iff {raw : String} {id : NodeId} :
    nodeId? raw = some id ↔ Numeral raw id.number ∧ id.number < 2 ^ 64 := by
  have hunfold : nodeId? raw = (decimal? (unsigned raw.toList)).bind fun n =>
      if n ≤ lastNumber then some ⟨n⟩ else none := rfl
  rw [hunfold, Option.bind_eq_some_iff]
  constructor
  · intro h
    obtain ⟨n, hn, hid⟩ := h
    split at hid
    · next hle =>
      cases hid
      exact ⟨digits_unsigned_iff.mp (decimal?_eq_some_iff.mp hn), Nat.lt_succ_of_le hle⟩
    · cases hid
  · intro h
    obtain ⟨hnumeral, hless⟩ := h
    refine ⟨id.number, decimal?_eq_some_iff.mpr (digits_unsigned_iff.mpr hnumeral), ?_⟩
    exact if_pos (Nat.le_of_lt_succ hless)

/-! ## Groups -/

/-- Arguments that are read together. -/
inductive Group where
  /-- The node to start from, as it was written and as it was understood. -/
  | entry (raw : String) (id : NodeId)
  | config (path : String)
  | demo (path : String)
  | graph (path : String)
deriving DecidableEq, Repr

namespace Group

/-- The option that the group begins with, if it is not a graph file. -/
def option : Group → Option String
  | entry _ _ => some "--entry"
  | config _ => some "--config"
  | demo _ => some "--demo"
  | graph _ => none

def arguments : Group → List String
  | entry raw _ => ["--entry", raw]
  | config path => ["--config", path]
  | demo path => ["--demo", path]
  | graph path => [path]

/-- An entry is a number of 64 bits, and a graph file does not look like an option.  A value may. -/
def Valid : Group → Prop
  | entry raw id => Numeral raw id.number ∧ id.number < 2 ^ 64
  | config _ | demo _ => True
  | graph path => ¬ "--".toList <+: path.toList

def entry? : Group → Option NodeId
  | entry _ id => some id
  | _ => none

def config? : Group → Option String
  | config path => some path
  | _ => none

def demo? : Group → Option String
  | demo path => some path
  | _ => none

def graph? : Group → Option String
  | graph path => some path
  | _ => none

/-- Reads the group after others. -/
def read (a : Arguments) : Group → Except UsageError Arguments
  | entry _ id => .ok { a with entry := some id }
  | config path => .ok { a with config := some path }
  | demo path => .ok { a with demo := some path }
  | graph path =>
    if a.graph.isSome then .error (.unexpectedArgument path)
    else .ok { a with graph := some path }

theorem valid_graph_iff {path : String} : (graph path).Valid ↔ isOption path = false := by
  rw [isOption, Bool.eq_false_iff, Ne, List.isPrefixOf_iff_prefix]
  exact Iff.rfl

/-- A graph file is none of the options. -/
theorem ne_option_of_valid {path : String} (h : (graph path).Valid) :
    path ≠ "--entry" ∧ path ≠ "--config" ∧ path ≠ "--demo" := by
  have hoption := valid_graph_iff.mp h
  refine ⟨?_, ?_, ?_⟩ <;>
    · intro heq
      rw [heq] at hoption
      revert hoption
      decide

end Group

/-- The arguments are the groups, one after the other. -/
structure Reads (arguments : List String) (groups : List Group) : Prop where
  valid : ∀ group ∈ groups, group.Valid
  arguments : groups.flatMap Group.arguments = arguments

/-- There is one graph file at most, and there is one or a sample. -/
structure Complete (groups : List Group) : Prop where
  oneGraph : (groups.filterMap Group.graph?).length ≤ 1
  hasGraph : groups.filterMap Group.graph? ≠ [] ∨ groups.filterMap Group.demo? ≠ []

/-- What the groups say: of each option the last value, and the graph file or else the sample. -/
def collected (groups : List Group) : Arguments where
  graph := (groups.filterMap Group.graph?).head?.or (groups.filterMap Group.demo?).getLast?
  entry := (groups.filterMap Group.entry?).getLast?
  config := (groups.filterMap Group.config?).getLast?
  demo := (groups.filterMap Group.demo?).getLast?

/-! ## Reading groups -/

/-- A group is read as a whole. -/
theorem readGroups_group {group : Group} (h : group.Valid) (a : Arguments) (rest : List String) :
    readGroups a (group.arguments ++ rest) = group.read a >>= fun a => readGroups a rest := by
  cases group with
  | entry raw id =>
    have hid : nodeId? raw = some id := nodeId?_eq_some_iff.mpr h
    simp only [Group.arguments, List.cons_append, List.nil_append, readGroups, hid]
    rfl
  | config path => rfl
  | demo path => rfl
  | graph path =>
    obtain ⟨hentry, hconfig, hdemo⟩ := Group.ne_option_of_valid h
    have hmem : path ∉ ["--entry", "--config", "--demo"] := by simp [hentry, hconfig, hdemo]
    have hplain : ¬ isOption path = true := by simp [Group.valid_graph_iff.mp h]
    simp only [Group.arguments, List.cons_append, List.nil_append]
    rw [readGroups.eq_5 _ _ _ (fun _ _ heq _ => hentry heq) (fun _ _ heq _ => hconfig heq)
      fun _ _ heq _ => hdemo heq, if_neg hmem, if_neg hplain, Group.read]
    split <;> rfl

theorem readGroups_groups {groups : List Group} (h : ∀ group ∈ groups, group.Valid)
    (a : Arguments) :
    readGroups a (groups.flatMap Group.arguments) = groups.foldlM Group.read a := by
  induction groups generalizing a with
  | nil => rfl
  | cons group groups ih =>
    rw [List.flatMap_cons, readGroups_group (h group List.mem_cons_self), List.foldlM_cons]
    refine congrArg (group.read a >>= ·) (funext fun a => ?_)
    exact ih (fun other hother => h other (List.mem_cons_of_mem _ hother)) a

theorem Reads.cons {rest : List String} {groups : List Group} (h : Reads rest groups)
    (group : Group) (hg : group.Valid) : Reads (group.arguments ++ rest) (group :: groups) where
  valid := List.forall_mem_cons.mpr ⟨hg, h.valid⟩
  arguments := by rw [List.flatMap_cons, h.arguments]

/-- What can be read to its end are groups. -/
theorem exists_reads {a b : Arguments} {arguments : List String}
    (h : readGroups a arguments = .ok b) : ∃ groups, Reads arguments groups := by
  induction a, arguments using readGroups.induct with
  | case1 a => exact ⟨[], fun _ hin => (nomatch hin), rfl⟩
  | case2 a raw rest id hid ih =>
    simp only [readGroups, hid] at h
    obtain ⟨groups, hreads⟩ := ih h
    exact ⟨_, hreads.cons (.entry raw id) (nodeId?_eq_some_iff.mp hid)⟩
  | case3 a raw rest hid =>
    simp only [readGroups, hid] at h
    cases h
  | case4 a path rest ih =>
    obtain ⟨groups, hreads⟩ := ih h
    exact ⟨_, hreads.cons (.config path) True.intro⟩
  | case5 a path rest ih =>
    obtain ⟨groups, hreads⟩ := ih h
    exact ⟨_, hreads.cons (.demo path) True.intro⟩
  | case6 a argument rest hentry hconfig hdemo hmem =>
    rw [readGroups.eq_5 _ _ _ hentry hconfig hdemo, if_pos hmem] at h
    cases h
  | case7 a argument rest hentry hconfig hdemo hmem hoption =>
    rw [readGroups.eq_5 _ _ _ hentry hconfig hdemo, if_neg hmem, if_pos hoption] at h
    cases h
  | case8 a argument rest hentry hconfig hdemo hmem hoption hsome =>
    rw [readGroups.eq_5 _ _ _ hentry hconfig hdemo, if_neg hmem, if_neg hoption,
      if_pos hsome] at h
    cases h
  | case9 a argument rest hentry hconfig hdemo hmem hoption hsome ih =>
    rw [readGroups.eq_5 _ _ _ hentry hconfig hdemo, if_neg hmem, if_neg hoption,
      if_neg hsome] at h
    obtain ⟨groups, hreads⟩ := ih h
    have hvalid := Group.valid_graph_iff.mpr (Bool.eq_false_iff.mpr hoption)
    exact ⟨_, hreads.cons (.graph argument) hvalid⟩

/-! ## What was read -/

/-- The one graph file; a second one is refused. -/
def onlyGraph : List String → Except UsageError (Option String)
  | _ :: second :: _ => .error (.unexpectedArgument second)
  | graphs => .ok graphs.head?

/-- What all groups come to before the sample is looked at, told by the values of each kind. -/
def gathered (groups : List Group) : Except UsageError Arguments := do
  let graph ← onlyGraph (groups.filterMap Group.graph?)
  return {
    graph
    entry := (groups.filterMap Group.entry?).getLast?
    config := (groups.filterMap Group.config?).getLast?
    demo := (groups.filterMap Group.demo?).getLast? }

theorem filterMap_concat {α β : Type} (f : α → Option β) (xs : List α) (x : α) :
    (xs ++ [x]).filterMap f = xs.filterMap f ++ (f x).toList := by
  rw [List.filterMap_append]
  cases hx : f x <;> simp [hx]

/-- The group that comes last decides on its own value, and leaves those of the other kinds. -/
theorem foldlM_read (groups : List Group) : groups.foldlM Group.read {} = gathered groups := by
  induction groups using List.reverseRecOn with
  | nil => rfl
  | append_singleton groups group ih =>
    rw [List.foldlM_append, ih]
    simp only [gathered, filterMap_concat]
    cases group with
    | entry _ _ | config _ | demo _ =>
      simp only [Group.entry?, Group.config?, Group.demo?, Group.graph?, Option.toList,
        List.append_nil, List.getLast?_concat]
      cases onlyGraph (groups.filterMap Group.graph?) <;> rfl
    | graph path =>
      simp only [Group.entry?, Group.config?, Group.demo?, Group.graph?, Option.toList,
        List.append_nil]
      cases groups.filterMap Group.graph? with
      | nil => rfl
      | cons first rest => cases rest <;> rfl

/-- Without a graph file the sample is taken. -/
def finish (a : Arguments) : Except UsageError Arguments :=
  match a.graph.or a.demo with
  | none => .error .missingGraph
  | some graph => .ok { a with graph := some graph }

theorem parse_eq (arguments : List String) :
    parse arguments = readGroups {} arguments >>= finish := rfl

theorem parse_groups {groups : List Group} (h : ∀ group ∈ groups, group.Valid) :
    parse (groups.flatMap Group.arguments) = gathered groups >>= finish := by
  rw [parse_eq, readGroups_groups h, foldlM_read]

/-- Groups with one graph file at most and with one or a sample are accepted for what they say. -/
theorem parse_complete {groups : List Group} (h : ∀ group ∈ groups, group.Valid)
    (hc : Complete groups) : parse (groups.flatMap Group.arguments) = .ok (collected groups) := by
  rw [parse_groups h, gathered, collected]
  cases hgraphs : groups.filterMap Group.graph? with
  | nil =>
    have hdemo : (groups.filterMap Group.demo?).getLast? ≠ none := fun hnone =>
      hc.hasGraph.elim (absurd hgraphs) (absurd (List.getLast?_eq_none_iff.mp hnone))
    obtain ⟨path, hpath⟩ := Option.ne_none_iff_exists'.mp hdemo
    rw [hpath]
    rfl
  | cons first rest =>
    cases rest with
    | nil => rfl
    | cons second rest =>
      have hone := hc.oneGraph
      rw [hgraphs] at hone
      exact absurd hone (by simp)

/-- No other groups are accepted. -/
theorem complete_of_parse {groups : List Group} (h : ∀ group ∈ groups, group.Valid) {a : Arguments}
    (hok : parse (groups.flatMap Group.arguments) = .ok a) : Complete groups := by
  rw [parse_groups h, gathered] at hok
  cases hgraphs : groups.filterMap Group.graph? with
  | nil =>
    cases hdemos : groups.filterMap Group.demo? with
    | nil =>
      rw [hgraphs, hdemos] at hok
      cases hok
    | cons demo rest => exact ⟨by simp [hgraphs], .inr (by simp [hdemos])⟩
  | cons first rest =>
    cases rest with
    | nil => exact ⟨by simp [hgraphs], .inl (by simp [hgraphs])⟩
    | cons second rest =>
      rw [hgraphs] at hok
      cases hok

/-! ## The order of groups -/

/-- The lists have the same groups, and those with the same option in the same order. -/
def SameOrder (groups groups' : List Group) : Prop :=
  ∀ option, groups.filter (·.option = option) = groups'.filter (·.option = option)

theorem SameOrder.filterMap {β : Type} {groups groups' : List Group} (h : SameOrder groups groups')
    (option : Option String) {f : Group → Option β}
    (hf : ∀ group, group.option ≠ option → f group = none) :
    groups.filterMap f = groups'.filterMap f := by
  have hfilter : ∀ gs : List Group,
      (gs.filter (·.option = option)).filterMap f = gs.filterMap f := by
    intro gs
    rw [List.filterMap_filter]
    refine List.filterMap_congr fun group _ => ?_
    by_cases ho : group.option = option
    · simp [ho]
    · simp [ho, hf group ho]
  rw [← hfilter, h option, hfilter]

theorem SameOrder.valid {groups groups' : List Group} (h : SameOrder groups groups')
    (hvalid : ∀ group ∈ groups, group.Valid) : ∀ group ∈ groups', group.Valid := by
  intro group hin
  have hfilter : group ∈ groups'.filter (·.option = group.option) := by simp [hin]
  rw [← h group.option] at hfilter
  exact hvalid group (List.mem_of_mem_filter hfilter)

theorem SameOrder.gathered_eq {groups groups' : List Group} (h : SameOrder groups groups') :
    gathered groups = gathered groups' := by
  have hgraph : groups.filterMap Group.graph? = groups'.filterMap Group.graph? :=
    h.filterMap none fun group ho => by
      cases group <;> first | rfl | exact absurd rfl ho
  have hentry : groups.filterMap Group.entry? = groups'.filterMap Group.entry? :=
    h.filterMap (some "--entry") fun group ho => by
      cases group <;> first | rfl | exact absurd rfl ho
  have hconfig : groups.filterMap Group.config? = groups'.filterMap Group.config? :=
    h.filterMap (some "--config") fun group ho => by
      cases group <;> first | rfl | exact absurd rfl ho
  have hdemo : groups.filterMap Group.demo? = groups'.filterMap Group.demo? :=
    h.filterMap (some "--demo") fun group ho => by
      cases group <;> first | rfl | exact absurd rfl ho
  rw [gathered, gathered, hgraph, hentry, hconfig, hdemo]

/-! ## All arguments -/

/-- What is accepted are complete groups, for what they say. -/
theorem parse_eq_ok_iff {arguments : List String} {a : Arguments} :
    parse arguments = .ok a ↔
      ∃ groups, Reads arguments groups ∧ Complete groups ∧ a = collected groups := by
  constructor
  · intro hok
    have hread : ∃ b, readGroups {} arguments = .ok b := by
      cases hread : readGroups {} arguments with
      | ok b => exact ⟨b, rfl⟩
      | error error =>
        rw [parse_eq, hread] at hok
        cases hok
    obtain ⟨b, hb⟩ := hread
    obtain ⟨groups, hvalid, rfl⟩ := exists_reads hb
    have hcomplete := complete_of_parse hvalid hok
    rw [parse_complete hvalid hcomplete] at hok
    exact ⟨groups, ⟨hvalid, rfl⟩, hcomplete, (Except.ok.inj hok).symm⟩
  · intro h
    obtain ⟨groups, ⟨hvalid, rfl⟩, hcomplete, rfl⟩ := h
    exact parse_complete hvalid hcomplete

/-- The arguments that are accepted are those that can be read from left to right as groups, with
    one graph file at most and with one or a sample; what they are read as is told by the last group
    of each kind.  All others are refused.  So groups of different kinds may change places. -/
theorem parse_reads_groups (arguments : List String) :
    (∀ a, parse arguments = .ok a ↔
      ∃ groups, Reads arguments groups ∧ Complete groups ∧ a = collected groups) ∧
    ((∃ error, parse arguments = .error error) ↔
      ¬ ∃ groups, Reads arguments groups ∧ Complete groups) ∧
    ∀ groups groups', Reads arguments groups → SameOrder groups groups' →
      parse (groups'.flatMap Group.arguments) = parse arguments := by
  refine ⟨fun a => parse_eq_ok_iff, ⟨?_, ?_⟩, fun groups groups' hreads hsame => ?_⟩
  · intro h hgroups
    obtain ⟨error, herror⟩ := h
    obtain ⟨groups, hreads, hcomplete⟩ := hgroups
    have hok := parse_eq_ok_iff.mpr ⟨groups, hreads, hcomplete, rfl⟩
    rw [herror] at hok
    cases hok
  · intro hno
    cases hparse : parse arguments with
    | error error => exact ⟨error, rfl⟩
    | ok a =>
      obtain ⟨groups, hreads, hcomplete, -⟩ := parse_eq_ok_iff.mp hparse
      exact absurd ⟨groups, hreads, hcomplete⟩ hno
  · obtain ⟨hvalid, rfl⟩ := hreads
    rw [parse_groups hvalid, parse_groups (hsame.valid hvalid), hsame.gathered_eq]

/-- An option as the value of another one, before and after the graph file. -/
theorem sample_after_graph_reads_alike :
    parse ["a.ron", "--entry", "+07", "--demo", "--entry"] =
        parse ["--demo", "--entry", "a.ron", "--entry", "+07"] ∧
      parse ["--demo", "--entry", "a.ron", "--entry", "+07"] =
        .ok { graph := some "a.ron", entry := some ⟨7⟩, demo := some "--entry" } := by
  obtain ⟨hok, -, hreorder⟩ := parse_reads_groups ["--demo", "--entry", "a.ron", "--entry", "+07"]
  have hentry : (Group.entry "+07" ⟨7⟩).Valid :=
    ⟨⟨['0', '7'], ⟨[0, 7], by decide, by decide, rfl, rfl⟩, .inr rfl⟩, by decide⟩
  have hreads : Reads ["--demo", "--entry", "a.ron", "--entry", "+07"]
      [.demo "--entry", .graph "a.ron", .entry "+07" ⟨7⟩] := by
    have hgraph : (Group.graph "a.ron").Valid := Group.valid_graph_iff.mpr (by decide)
    refine ⟨?_, rfl⟩
    simpa using ⟨True.intro, hgraph, hentry⟩
  have hsame : SameOrder [.demo "--entry", .graph "a.ron", .entry "+07" ⟨7⟩]
      [.graph "a.ron", .entry "+07" ⟨7⟩, .demo "--entry"] := by
    intro option
    by_cases hdemo : some "--demo" = option
    · subst hdemo
      decide
    · have hother : ¬ decide ((Group.demo "--entry").option = option) = true :=
        fun h => hdemo (of_decide_eq_true h)
      simp only [List.filter_cons, List.filter_nil, if_neg hother]
  refine ⟨hreorder _ _ hreads hsame, ?_⟩
  exact (hok _).mpr ⟨_, hreads, ⟨by decide, .inl (by decide)⟩, rfl⟩

end Arguments

end FlowGraph
