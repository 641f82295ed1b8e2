/-
Module: SmlRs.Macros.Construction
Purpose: How the tree of a composite machine is built from the tables that refer to
  each other.
Trusted boundary: none
Main exports: StateMachine, build_tree, Reached, Owns, Conflict, Sound,
  tree_construction
-/
import SmlRs.Macros.Regions
import SmlRs.Macros.Routing

namespace SmlRs.Macros

open Lib

variable {E : Environment}

/-- A row with the tables that its states refer to by `state<..>`. -/
structure ReferringRow (E : Environment) extends StarredRow E where
  in_composite : Option E.Ident := none
  out_composite : Option E.Ident := none

/-- A table as it is parsed. -/
structure StateMachine (E : Environment) where
  name : Option E.Ident
  transitions : List (ReferringRow E)

/-- Why no tree is built. -/
inductive TreeError (E : Environment) where
  /-- "composite parent must be named" -/
  | unnamed
  /-- "a composite table cannot be owned by multiple parents or form a cycle" -/
  | owned_or_cycle (reference : E.Ident)
  /-- "missing child table `{reference}`" -/
  | missing (reference : E.Ident)
  /-- "each table in a composite tree requires at least one initial state" -/
  | no_initial
  /-- "an anonymous composite completion must leave its source state" -/
  | stays

/-- An entry of the queue: a table, the table that refers to it (`none` for the
root, whose name the source has here), and how deep it lies. -/
structure Reference (E : Environment) where
  reference : E.Ident
  node_parent : Option E.Ident
  depth : Nat

/-- A table of the tree. `child` has lost the references to tables that are not
given. -/
structure TreeNode (E : Environment) extends Reference E where
  child : StateMachine E

namespace StateMachine

variable (machine : StateMachine E)

/-- The first occurrences of the references of a table to those that are known. -/
def direct_children (known_names : List E.Ident) : List E.Ident :=
  ((machine.transitions.flatMap fun row =>
      row.in_composite.toList ++ row.out_composite.toList).filter
    (known_names.contains ·)).foldl
    (fun children child =>
      if children.contains child then children else children ++ [child]) []

/-- The references of a table that are not to its direct children are dropped. -/
def normalized (direct_children : List E.Ident) : StateMachine E :=
  { machine with
    transitions := machine.transitions.map fun row =>
      { row with
        in_composite := row.in_composite.filter (direct_children.contains ·)
        out_composite := row.out_composite.filter (direct_children.contains ·) } }

/-- What `validate` asks of one table. -/
def check : Except (TreeError E) Unit :=
  if (machine.transitions.filter (·.start)).length = 0 then .error .no_initial
  else if machine.transitions.any fun row =>
      row.event.kind = .completion && row.internal_transition then .error .stays
  else .ok ()

end StateMachine

/-- `validate`. -/
def validate (parent child : StateMachine E) : Except (TreeError E) Unit := do
  parent.check
  child.check

/-- The names of the tables. -/
def known_names (machines : List (StateMachine E)) : List E.Ident :=
  machines.filterMap (·.name)

/-- The table of a name. -/
def find_machine (machines : List (StateMachine E)) (reference : E.Ident) :
    Option (StateMachine E) :=
  machines.find? (·.name = some reference)

theorem known_of_find {machines : List (StateMachine E)} {reference : E.Ident}
    {machine : StateMachine E} (found : find_machine machines reference = some machine) :
    reference ∈ known_names machines := by
  have named := List.find?_some found
  rw [decide_eq_true_eq] at named
  exact List.mem_filterMap.mpr ⟨machine, List.mem_of_find?_eq_some found, named⟩

/-- The loop over the queue. The depth of a table is at most the number of tables,
so that `saturating_add` adds one. -/
def build_loop (machines : List (StateMachine E)) (parent : StateMachine E) :
    List (Reference E) → List (TreeNode E) →
      Except (TreeError E) (List (TreeNode E))
  | [], nodes => .ok nodes
  | entry :: queue, nodes =>
      if _visited : nodes.any (·.reference = entry.reference) then
        .error (.owned_or_cycle entry.reference)
      else
        match _found : find_machine machines entry.reference with
        | none => .error (.missing entry.reference)
        | some original =>
            match validate parent original with
            | .error error => .error error
            | .ok _ =>
                let direct_children :=
                  original.direct_children (known_names machines)
                build_loop machines parent
                  (queue ++ direct_children.map fun child =>
                    ⟨child, some entry.reference, entry.depth + 1⟩)
                  (nodes ++ [⟨entry, original.normalized direct_children⟩])
termination_by _ nodes =>
  unseen (known_names machines) fun name => nodes.any (·.reference = name)
decreasing_by
  apply unseen_visit (known_of_find _found) (by simpa using _visited)
  intro other
  rw [List.any_append, Bool.or_comm]
  simp [eq_comm]

/-- The tables of the tree below `parent`, breadth first. -/
def build_tree (machines : List (StateMachine E)) (parent : StateMachine E) :
    Except (TreeError E) (List (TreeNode E)) :=
  match parent.name with
  | none => .error .unnamed
  | some _ =>
      build_loop machines parent
        ((parent.direct_children (known_names machines)).map fun child =>
          ⟨child, none, 1⟩) []

/-! ### Owners -/

section Owners

variable (machines : List (StateMachine E)) (parent : StateMachine E)

/-- The tables that a table refers to. -/
def next_tables (table : E.Ident) : List E.Ident :=
  match find_machine machines table with
  | none => []
  | some machine => machine.direct_children (known_names machines)

/-- The tables that the root refers to. -/
def root_tables : List E.Ident :=
  parent.direct_children (known_names machines)

/-- A table can be reached from the root. -/
def Reached (table : E.Ident) : Prop :=
  ∃ child ∈ root_tables machines parent, Leads (next_tables machines) child table

/-- The root (`none`), or a table that can be reached, refers to a table. -/
def Owns : Option E.Ident → E.Ident → Prop
  | none, table => table ∈ root_tables machines parent
  | some owner, table =>
      Reached machines parent owner ∧ table ∈ next_tables machines owner

/-- A table has two owners, or lies on a cycle that can be reached. -/
def Conflict : Prop :=
  (∃ table first second, first ≠ second ∧ Owns machines parent first table ∧
      Owns machines parent second table) ∨
    ∃ table, Reached machines parent table ∧
      Relation.TransGen (fun owner table => table ∈ next_tables machines owner)
        table table

/-- The root and every table that can be reached pass the checks. -/
def Valid : Prop :=
  ∀ table machine, Reached machines parent table →
    find_machine machines table = some machine →
      validate parent machine = .ok ()

/-- An entry stands for a reference that there is, at its depth. -/
def Reference.Grows (nodes : List (TreeNode E)) (entry : Reference E) : Prop :=
  match entry.node_parent with
  | none => entry.reference ∈ root_tables machines parent ∧ entry.depth = 1
  | some owner => entry.reference ∈ next_tables machines owner ∧
      ∃ node ∈ nodes, node.reference = owner ∧ entry.depth = node.depth + 1

end Owners

/-! ### The references of a table -/

/-- The first occurrences of the values of a list, behind some that have occurred. -/
theorem first_occurrences {α : Type} [DecidableEq α] (values front : List α)
    (once : front.Nodup) :
    (values.foldl (fun children child =>
        if children.contains child then children else children ++ [child])
        front).Nodup ∧
      ∀ value, value ∈ values.foldl (fun children child =>
          if children.contains child then children else children ++ [child]) front ↔
        value ∈ front ∨ value ∈ values := by
  induction values generalizing front with
  | nil => exact ⟨once, by simp⟩
  | cons first rest ih =>
    rw [List.foldl_cons]
    by_cases among : first ∈ front
    · rw [if_pos (List.contains_iff_mem.mpr among)]
      obtain ⟨still, members⟩ := ih front once
      refine ⟨still, fun value => ?_⟩
      rw [members, List.mem_cons]
      constructor
      · exact fun known => known.imp_right .inr
      · intro known
        rcases known with known | rfl | known
        · exact .inl known
        · exact .inl among
        · exact .inr known
    · rw [if_neg fun holds => among (List.contains_iff_mem.mp holds)]
      have longer : (front ++ [first]).Nodup := by
        apply List.Nodup.append once (List.nodup_singleton _)
        intro value inside single
        exact among (List.mem_singleton.mp single ▸ inside)
      obtain ⟨still, members⟩ := ih (front ++ [first]) longer
      refine ⟨still, fun value => ?_⟩
      rw [members, List.mem_append, List.mem_singleton, List.mem_cons, or_assoc]

section Children

variable {machine : StateMachine E} {known : List E.Ident} {child : E.Ident}

theorem direct_children_nodup : (machine.direct_children known).Nodup :=
  (first_occurrences _ [] List.nodup_nil).1

/-- A table has a reference in one of its rows. -/
def StateMachine.refers (machine : StateMachine E) (child : E.Ident) : Prop :=
  ∃ row ∈ machine.transitions,
    row.in_composite = some child ∨ row.out_composite = some child

/-- The direct children are the references to tables that are known. -/
theorem mem_direct_children :
    child ∈ machine.direct_children known ↔ machine.refers child ∧ child ∈ known := by
  unfold StateMachine.direct_children StateMachine.refers
  rw [(first_occurrences _ [] List.nodup_nil).2]
  simp [List.mem_filter, List.mem_flatMap, Option.mem_toList]

end Children

/-! ### The loop -/

section Loop

variable {machines : List (StateMachine E)} {parent : StateMachine E}

/-- What a table in the tree or in the queue was entered as. -/
def entries (nodes : List (TreeNode E)) (queue : List (Reference E)) :
    List (Reference E) :=
  nodes.map (·.toReference) ++ queue

/-- The tree under way: the tables it has and the queue. -/
structure Growing (machines : List (StateMachine E)) (parent : StateMachine E)
    (nodes : List (TreeNode E)) (queue : List (Reference E)) : Prop where
  frontier : Frontier (next_tables machines) (root_tables machines parent)
    {table | ∃ node ∈ nodes, node.reference = table} (queue.map (·.reference))
  once : (nodes.map (·.reference)).Nodup
  apart : ((entries nodes queue).map fun entry =>
    (entry.node_parent, entry.reference)).Nodup
  queued : ∀ entry ∈ queue, entry.Grows machines parent nodes
  behind : ∀ front node back, nodes = front ++ node :: back →
    node.Grows machines parent front
  roots : ∀ child ∈ root_tables machines parent,
    ∃ entry ∈ entries nodes queue,
      entry.node_parent = none ∧ entry.reference = child
  covers : ∀ node ∈ nodes, ∀ child ∈ next_tables machines node.reference,
    ∃ entry ∈ entries nodes queue,
      entry.node_parent = some node.reference ∧ entry.reference = child
  checked : ∀ node ∈ nodes, ∃ machine,
    find_machine machines node.reference = some machine ∧
      validate parent machine = .ok () ∧
        node.child = machine.normalized (next_tables machines node.reference)

/-- With more tables an entry stands for the same reference. -/
theorem Reference.Grows.mono {entry : Reference E} {nodes more : List (TreeNode E)}
    (grows : entry.Grows machines parent nodes)
    (within : ∀ node ∈ nodes, node ∈ more) :
    entry.Grows machines parent more := by
  unfold Reference.Grows at grows ⊢
  split
  · rename_i root
    rw [root] at grows
    exact grows
  · rename_i owner owned
    rw [owned] at grows
    obtain ⟨refers, node, among, named, deeper⟩ := grows
    exact ⟨refers, node, within node among, named, deeper⟩

namespace Growing

variable {nodes : List (TreeNode E)} {queue : List (Reference E)}
  {entry : Reference E}

theorem start : Growing machines parent []
    ((root_tables machines parent).map fun child => ⟨child, none, 1⟩) where
  frontier := by
    have none_yet : {table | ∃ node ∈ ([] : List (TreeNode E)),
        node.reference = table} = ∅ := by
      ext table
      simp
    rw [none_yet, List.map_map]
    have same : (root_tables machines parent).map
        ((·.reference) ∘ fun child => (⟨child, none, 1⟩ : Reference E)) =
          root_tables machines parent := List.map_id _
    rw [same]
    exact .start
  once := List.nodup_nil
  apart := by
    unfold entries
    rw [List.map_nil, List.nil_append, List.map_map]
    apply direct_children_nodup.map
    intro first second same
    exact (Prod.mk.inj same).2
  queued entry among := by
    obtain ⟨child, refers, rfl⟩ := List.mem_map.mp among
    exact ⟨refers, rfl⟩
  behind front node back split := by simp at split
  roots child among :=
    ⟨⟨child, none, 1⟩, List.mem_map.mpr ⟨child, among, rfl⟩, rfl, rfl⟩
  covers _ among := absurd among List.not_mem_nil
  checked _ among := absurd among List.not_mem_nil

/-- The references of a table, as they are put into the queue. -/
def children_of (machines : List (StateMachine E)) (entry : Reference E) :
    List (Reference E) :=
  (next_tables machines entry.reference).map fun child =>
    ⟨child, some entry.reference, entry.depth + 1⟩

theorem entries_visit {child : StateMachine E} {further : List (Reference E)} :
    entries (nodes ++ [⟨entry, child⟩]) (queue ++ further) =
      entries nodes (entry :: queue) ++ further := by
  simp [entries]

/-- An owner that has been queued is one that can be reached. -/
theorem owns (growing : Growing machines parent nodes queue)
    (grows : entry.Grows machines parent nodes) :
    Owns machines parent entry.node_parent entry.reference := by
  unfold Reference.Grows at grows
  split at grows
  · rename_i root
    rw [root]
    exact grows.1
  · rename_i owner owned
    obtain ⟨refers, node, among, named, _⟩ := grows
    rw [owned]
    exact ⟨growing.frontier.visits owner ⟨node, among, named⟩, refers⟩

theorem node_grows (growing : Growing machines parent nodes queue)
    {node : TreeNode E} (among : node ∈ nodes) :
    node.Grows machines parent nodes := by
  obtain ⟨front, back, rfl⟩ := List.append_of_mem among
  exact (growing.behind front node back rfl).mono fun other inside => by simp [inside]

/-- A table that is visited for the first time takes its references into the queue. -/
theorem visit (growing : Growing machines parent nodes (entry :: queue))
    (fresh : ∀ node ∈ nodes, node.reference ≠ entry.reference)
    {machine : StateMachine E}
    (found : find_machine machines entry.reference = some machine)
    (valid : validate parent machine = .ok ()) :
    Growing machines parent
      (nodes ++
        [⟨entry, machine.normalized (next_tables machines entry.reference)⟩])
      (queue ++ children_of machines entry) := by
  have wider : ∀ node ∈ nodes, node ∈ nodes ++
      [⟨entry, machine.normalized (next_tables machines entry.reference)⟩] :=
    fun node among => List.mem_append_left _ among
  constructor
  · have visited := growing.frontier.visit
    have names : (queue ++ children_of machines entry).map (·.reference) =
        queue.map (·.reference) ++ next_tables machines entry.reference := by
      rw [List.map_append]
      unfold children_of
      rw [List.map_map]
      congr 1
      exact List.map_id _
    have tables : {table | ∃ node ∈ nodes ++
        [⟨entry, machine.normalized (next_tables machines entry.reference)⟩],
          node.reference = table} =
        insert entry.reference {table | ∃ node ∈ nodes, node.reference = table} := by
      ext table
      simp [or_and_right, exists_or, or_comm, eq_comm]
    rw [names, tables]
    exact visited
  · rw [List.map_append, List.map_singleton]
    apply growing.once.append (List.nodup_singleton _)
    intro reference among single
    obtain ⟨node, inside, named⟩ := List.mem_map.mp among
    exact fresh node inside (named.trans (List.mem_singleton.mp single))
  · rw [entries_visit, List.map_append]
    apply growing.apart.append
    · unfold children_of
      rw [List.map_map]
      have distinct : (next_tables machines entry.reference).Nodup := by
        unfold next_tables
        rw [found]
        exact direct_children_nodup
      apply distinct.map
      intro first second same
      exact (Prod.mk.inj same).2
    · intro pair known added
      obtain ⟨earlier, among, rfl⟩ := List.mem_map.mp known
      obtain ⟨later, further, same⟩ := List.mem_map.mp added
      obtain ⟨child, _, rfl⟩ := List.mem_map.mp further
      have owned : earlier.node_parent = some entry.reference :=
        (Prod.mk.inj same).1.symm
      have grows : earlier.Grows machines parent nodes := by
        rcases List.mem_append.mp among with inside | waiting
        · obtain ⟨node, listed, rfl⟩ := List.mem_map.mp inside
          exact growing.node_grows listed
        · exact growing.queued earlier waiting
      unfold Reference.Grows at grows
      rw [owned] at grows
      obtain ⟨_, node, inside, named, _⟩ := grows
      exact fresh node inside named
  · intro other among
    rcases List.mem_append.mp among with waiting | further
    · exact (growing.queued other (List.mem_cons_of_mem _ waiting)).mono wider
    · obtain ⟨child, refers, rfl⟩ := List.mem_map.mp further
      exact ⟨refers, _, List.mem_append_right _ (List.mem_singleton_self _), rfl, rfl⟩
  · intro front node back split
    rcases List.append_eq_append_iff.mp split with
      ⟨more, rfl, last⟩ | ⟨more, inside, rest⟩
    · cases more with
      | nil =>
        rw [List.nil_append] at last
        have same := (List.cons.inj last).1
        rw [List.append_nil, ← same]
        exact growing.queued entry List.mem_cons_self
      | cons first more => simp at last
    · cases more with
      | nil =>
        rw [List.nil_append] at rest
        have same := (List.cons.inj rest).1
        rw [List.append_nil] at inside
        rw [← inside, same]
        exact growing.queued entry List.mem_cons_self
      | cons first more =>
        obtain ⟨rfl, _⟩ := List.cons.inj rest
        exact growing.behind front node more inside
  · intro child among
    obtain ⟨other, inside, found⟩ := growing.roots child among
    rw [entries_visit]
    exact ⟨other, List.mem_append_left _ inside, found⟩
  · intro node among child refers
    rw [entries_visit]
    rcases List.mem_append.mp among with inside | last
    · obtain ⟨other, listed, found⟩ := growing.covers node inside child refers
      exact ⟨other, List.mem_append_left _ listed, found⟩
    · rw [List.mem_singleton.mp last] at refers ⊢
      exact ⟨⟨child, some entry.reference, entry.depth + 1⟩,
        List.mem_append_right _ (List.mem_map.mpr ⟨child, refers, rfl⟩), rfl, rfl⟩
  · intro node among
    rcases List.mem_append.mp among with inside | last
    · exact growing.checked node inside
    · rw [List.mem_singleton.mp last]
      exact ⟨machine, found, valid, rfl⟩

/-- A table that comes up again has a second owner. -/
theorem conflict (growing : Growing machines parent nodes (entry :: queue))
    {node : TreeNode E} (among : node ∈ nodes)
    (again : node.reference = entry.reference) : Conflict machines parent := by
  refine .inl ⟨entry.reference, node.node_parent, entry.node_parent, ?_, ?_, ?_⟩
  · intro same
    have apart := growing.apart
    unfold entries at apart
    rw [List.map_append, List.nodup_append] at apart
    refine apart.2.2 (node.node_parent, node.reference) ?_
      (entry.node_parent, entry.reference) ?_ (by rw [same, again])
    · exact List.mem_map.mpr ⟨node.toReference, List.mem_map_of_mem among, rfl⟩
    · exact List.mem_map_of_mem List.mem_cons_self
  · exact again ▸ growing.owns (growing.node_grows among)
  · exact growing.owns (growing.queued entry List.mem_cons_self)

/-- A table in the queue can be reached and is known. -/
theorem reached (growing : Growing machines parent nodes (entry :: queue)) :
    Reached machines parent entry.reference :=
  growing.frontier.waits entry.reference
    (List.mem_map_of_mem List.mem_cons_self)

theorem found (growing : Growing machines parent nodes (entry :: queue)) :
    ∃ machine, find_machine machines entry.reference = some machine := by
  have known : entry.reference ∈ known_names machines := by
    have owned := growing.owns (growing.queued entry List.mem_cons_self)
    cases owner : entry.node_parent with
    | none =>
      rw [owner] at owned
      exact (mem_direct_children.mp owned).2
    | some table =>
      rw [owner] at owned
      have refers := owned.2
      unfold next_tables at refers
      split at refers
      · cases refers
      · exact (mem_direct_children.mp refers).2
  obtain ⟨machine, among, named⟩ := List.mem_filterMap.mp known
  apply Option.isSome_iff_exists.mp
  exact List.find?_isSome.mpr ⟨machine, among, by simp [named]⟩

end Growing

/-- A turn of the loop for a table that has not come up yet. -/
theorem build_loop_turn {queue : List (Reference E)} {nodes : List (TreeNode E)}
    {entry : Reference E} {machine : StateMachine E}
    (fresh : ¬ nodes.any (·.reference = entry.reference) = true)
    (found : find_machine machines entry.reference = some machine) :
    build_loop machines parent (entry :: queue) nodes =
      match validate parent machine with
      | .error error => .error error
      | .ok _ =>
          build_loop machines parent (queue ++ Growing.children_of machines entry)
            (nodes ++
              [⟨entry, machine.normalized (next_tables machines entry.reference)⟩]) := by
  have children : next_tables machines entry.reference =
      machine.direct_children (known_names machines) := by
    unfold next_tables
    rw [found]
  unfold Growing.children_of
  rw [children, build_loop, dif_neg fresh]
  split
  · rename_i missing
    cases found.symm.trans missing
  · rename_i other again
    cases found.symm.trans again
    rfl

/-- The loop builds a tree, or there is none. -/
theorem build_loop_spec {queue : List (Reference E)} {nodes : List (TreeNode E)}
    (growing : Growing machines parent nodes queue) :
    (∀ built, build_loop machines parent queue nodes = .ok built →
        Growing machines parent built []) ∧
      ∀ error, build_loop machines parent queue nodes = .error error →
        Conflict machines parent ∨ ¬ Valid machines parent := by
  induction queue, nodes using build_loop.induct machines parent with
  | case1 nodes =>
    unfold build_loop
    refine ⟨fun built ends => ?_, fun error ends => (by cases ends)⟩
    cases ends
    exact growing
  | case2 entry queue nodes visited =>
    rw [build_loop, dif_pos visited]
    refine ⟨fun built ends => (by cases ends), fun _ _ => .inl ?_⟩
    obtain ⟨node, among, again⟩ := List.any_eq_true.mp visited
    exact growing.conflict among (of_decide_eq_true again)
  | case3 entry queue nodes visited missing =>
    obtain ⟨machine, found⟩ := growing.found
    cases found.symm.trans missing
  | case4 entry queue nodes fresh machine found error invalid =>
    rw [build_loop_turn fresh found, invalid]
    refine ⟨fun built ends => (by cases ends), fun _ _ => .inr fun valid => ?_⟩
    cases invalid.symm.trans (valid _ machine growing.reached found)
  | case5 entry queue nodes fresh machine found passed valid children ih =>
    rw [build_loop_turn fresh found, valid]
    have others : ∀ node ∈ nodes, node.reference ≠ entry.reference := by
      intro node among again
      exact fresh (List.any_eq_true.mpr ⟨node, among, decide_eq_true again⟩)
    have same : children = next_tables machines entry.reference := by
      unfold next_tables
      rw [found]
    rw [same] at ih
    exact ih (growing.visit others found valid)

end Loop

/-! ### The tree -/

/-- A table lies below another one. -/
def Descends (nodes : List (TreeNode E)) : TreeNode E → TreeNode E → Prop :=
  Relation.TransGen fun node owner =>
    node ∈ nodes ∧ owner ∈ nodes ∧ node.node_parent = some owner.reference

/-- A list of tables is the tree of what can be reached from the root: each of them
has one owner, in front of it and one level above, so that the descendants of a table
come before it where the tables are sorted by falling depth. -/
structure IsTree (machines : List (StateMachine E)) (parent : StateMachine E)
    (nodes : List (TreeNode E)) : Prop where
  tables : ∀ table, (∃ node ∈ nodes, node.reference = table) ↔
    Reached machines parent table
  once : (nodes.map (·.reference)).Nodup
  lowered : ∀ node ∈ nodes, ∃ machine,
    find_machine machines node.reference = some machine ∧
      node.child = machine.normalized (next_tables machines node.reference)
  owner : ∀ node ∈ nodes, ∀ owner,
    Owns machines parent owner node.reference ↔ owner = node.node_parent
  behind : ∀ front node back, nodes = front ++ node :: back →
    node.node_parent = none ∨ ∃ owner ∈ front,
      node.node_parent = some owner.reference
  top : ∀ node ∈ nodes, node.node_parent = none → node.depth = 1
  below : ∀ node ∈ nodes, ∀ owner ∈ nodes,
    node.node_parent = some owner.reference → node.depth = owner.depth + 1
  sorted : ∀ order : List (TreeNode E), order.Perm nodes →
    order.Pairwise (fun first second => second.depth ≤ first.depth) →
      order.Pairwise fun first second => ¬ Descends nodes second first

namespace Growing

variable {machines : List (StateMachine E)} {parent : StateMachine E}
  {nodes : List (TreeNode E)} (grown : Growing machines parent nodes [])

include grown

theorem reached_iff (table : E.Ident) :
    (∃ node ∈ nodes, node.reference = table) ↔ Reached machines parent table :=
  grown.frontier.visited_iff

theorem unique {first second : TreeNode E} (one : first ∈ nodes) (other : second ∈ nodes)
    (same : first.reference = second.reference) : first = second :=
  List.inj_on_of_nodup_map grown.once one other same

/-- What is owned is in the tree, with this owner. -/
theorem owned {owner : Option E.Ident} {table : E.Ident}
    (owns : Owns machines parent owner table) :
    ∃ node ∈ nodes, node.reference = table ∧ node.node_parent = owner := by
  have listed {entry : Reference E} (among : entry ∈ entries nodes []) :
      ∃ node ∈ nodes, node.toReference = entry := by
    unfold entries at among
    rw [List.append_nil] at among
    exact List.mem_map.mp among
  cases owner with
  | none =>
    obtain ⟨entry, among, root, named⟩ := grown.roots table owns
    obtain ⟨node, inside, rfl⟩ := listed among
    exact ⟨node, inside, named, root⟩
  | some owner =>
    obtain ⟨reached, refers⟩ := owns
    obtain ⟨above, there, rfl⟩ := (grown.reached_iff owner).mpr reached
    obtain ⟨entry, among, under, named⟩ := grown.covers above there table refers
    obtain ⟨node, inside, rfl⟩ := listed among
    exact ⟨node, inside, named, under⟩

theorem owner_iff {node : TreeNode E} (among : node ∈ nodes)
    (owner : Option E.Ident) :
    Owns machines parent owner node.reference ↔ owner = node.node_parent := by
  constructor
  · intro owns
    obtain ⟨other, inside, named, under⟩ := grown.owned owns
    rw [← grown.unique inside among named, under]
  · rintro rfl
    exact grown.owns (grown.node_grows among)

theorem deeper {node owner : TreeNode E} (among : node ∈ nodes) (above : owner ∈ nodes)
    (under : node.node_parent = some owner.reference) :
    node.depth = owner.depth + 1 := by
  have grows := grown.node_grows among
  unfold Reference.Grows at grows
  rw [under] at grows
  obtain ⟨_, other, inside, named, deeper⟩ := grows
  rw [deeper, grown.unique inside above named]

theorem descends_deeper {node ancestor : TreeNode E}
    (descends : Descends nodes node ancestor) : ancestor.depth < node.depth := by
  induction descends with
  | single step => exact grown.deeper step.1 step.2.1 step.2.2 ▸ Nat.lt_succ_self _
  | tail _ step ih =>
    have above := grown.deeper step.1 step.2.1 step.2.2
    omega

/-- A reference leads one level down. -/
theorem refers_deeper {owner node : TreeNode E} (above : owner ∈ nodes)
    (among : node ∈ nodes)
    (refers : node.reference ∈ next_tables machines owner.reference) :
    node.depth = owner.depth + 1 := by
  have owns : Owns machines parent (some owner.reference) node.reference :=
    ⟨(grown.reached_iff _).mp ⟨owner, above, rfl⟩, refers⟩
  exact grown.deeper among above ((grown.owner_iff among _).mp owns).symm

theorem path_deeper {table last : E.Ident}
    (path : Relation.TransGen
      (fun owner table => table ∈ next_tables machines owner) table last)
    {first : TreeNode E} (above : first ∈ nodes) (named : first.reference = table) :
    ∃ node ∈ nodes, node.reference = last ∧ first.depth < node.depth := by
  have further {owner : TreeNode E} (inside : owner ∈ nodes) {next : E.Ident}
      (refers : next ∈ next_tables machines owner.reference) :
      ∃ node ∈ nodes, node.reference = next ∧ owner.depth < node.depth := by
    have reached := (grown.reached_iff _).mp ⟨owner, inside, rfl⟩
    obtain ⟨start, root, leads⟩ := reached
    obtain ⟨node, among, rfl⟩ := (grown.reached_iff next).mpr
      ⟨start, root, leads.tail refers⟩
    exact ⟨node, among, rfl, grown.refers_deeper inside among refers ▸
      Nat.lt_succ_self _⟩
  induction path with
  | single refers => exact further above (named ▸ refers)
  | tail _ refers ih =>
    obtain ⟨middle, inside, rfl, less⟩ := ih
    obtain ⟨node, among, same, more⟩ := further inside refers
    exact ⟨node, among, same, less.trans more⟩

/-- Where a tree is built there is no conflict. -/
theorem no_conflict : ¬ Conflict machines parent := by
  intro conflict
  rcases conflict with ⟨table, first, second, apart, one, other⟩ | ⟨table, reached, path⟩
  · obtain ⟨node, among, rfl, rfl⟩ := grown.owned one
    exact apart ((grown.owner_iff among second).mp other).symm
  · obtain ⟨node, among, rfl⟩ := (grown.reached_iff table).mpr reached
    obtain ⟨again, inside, same, less⟩ := grown.path_deeper path among rfl
    rw [grown.unique inside among same] at less
    exact lt_irrefl _ less

theorem valid : Valid machines parent := by
  intro table machine reached found
  obtain ⟨node, among, rfl⟩ := (grown.reached_iff table).mpr reached
  obtain ⟨other, again, valid, _⟩ := grown.checked node among
  cases again.symm.trans found
  exact valid

theorem is_tree : IsTree machines parent nodes where
  tables := grown.reached_iff
  once := grown.once
  lowered node among := by
    obtain ⟨machine, found, _, child⟩ := grown.checked node among
    exact ⟨machine, found, child⟩
  owner node among := grown.owner_iff among
  behind front node back split := by
    have grows := grown.behind front node back split
    unfold Reference.Grows at grows
    split at grows
    · rename_i root
      exact .inl root
    · rename_i owner under
      obtain ⟨_, above, inside, named, _⟩ := grows
      exact .inr ⟨above, inside, named ▸ under⟩
  top node among root := by
    have grows := grown.node_grows among
    unfold Reference.Grows at grows
    rw [root] at grows
    exact grows.2
  below node among owner above := grown.deeper among above
  sorted order _ falling := by
    apply falling.imp
    intro first second less descends
    exact absurd (grown.descends_deeper descends) (Nat.not_lt.mpr less)

end Growing

/-- The construction ends in an error exactly where the root has no name, a table
that can be reached has two owners or lies on a cycle, or a table fails its check;
and else in the tree of the tables that can be reached. -/
theorem tree_construction (machines : List (StateMachine E))
    (parent : StateMachine E) :
    ((∃ error, build_tree machines parent = .error error) ↔
        parent.name = none ∨ Conflict machines parent ∨ ¬ Valid machines parent) ∧
      ∀ nodes, build_tree machines parent = .ok nodes →
        IsTree machines parent nodes := by
  obtain ⟨builds, fails⟩ := build_loop_spec (@Growing.start _ machines parent)
  unfold build_tree
  cases named : parent.name with
  | none => simp
  | some name =>
    refine ⟨⟨?_, ?_⟩, fun nodes built => (builds nodes built).is_tree⟩
    · intro ends
      obtain ⟨error, run⟩ := ends
      exact .inr (fails error run)
    · intro bad
      have wrong := bad.resolve_left (by simp)
      cases run : build_loop machines parent ((root_tables machines parent).map
          fun child => ⟨child, none, 1⟩) [] with
      | error error => exact ⟨error, run⟩
      | ok nodes =>
        have grown := builds nodes run
        rcases wrong with conflict | invalid
        · exact absurd conflict grown.no_conflict
        · exact absurd grown.valid invalid

/-! ### Tables that are not reached, and tables without a starred row -/

/-- A table of one starred row, in whose source another table may be nested. -/
def single_row (name : Name) (nested : Option Name) : StateMachine sample where
  name := some name
  transitions :=
    [{ in_state := plain 0, event := on 0, out_state := plain 1, start := true,
       in_composite := nested }]

/-- A table whose only row is not starred. -/
def unstarred (name : Name) : StateMachine sample where
  name := some name
  transitions := [{ in_state := plain 0, event := on 0, out_state := plain 1 }]

/-- `Name.state 0` and `Name.state 2` both refer to `Name.state 1`. -/
def shared_child : List (StateMachine sample) :=
  [single_row (.state 0) (some (.state 1)), single_row (.state 1) none,
    single_row (.state 2) (some (.state 1))]

/-- The child of `Name.state 0` has no starred row. -/
def startless_child : List (StateMachine sample) :=
  [single_row (.state 0) (some (.state 1)), unstarred (.state 1)]

theorem shared_child_built :
    build_tree shared_child (single_row (.state 0) (some (.state 1))) =
      .ok [⟨⟨Name.state 1, none, 1⟩, single_row (.state 1) none⟩] := by
  have turn := @build_loop_turn sample shared_child
    (single_row (.state 0) (some (.state 1))) [] [] ⟨Name.state 1, none, 1⟩
    (single_row (.state 1) none) Bool.false_ne_true rfl
  have last (nodes : List (TreeNode sample)) :
      build_loop shared_child (single_row (.state 0) (some (.state 1))) [] nodes =
        .ok nodes := by
    rw [build_loop]
  exact turn.trans (last _)

theorem startless_child_fails :
    build_tree startless_child (single_row (.state 0) (some (.state 1))) =
      .error .no_initial :=
  @build_loop_turn sample startless_child
    (single_row (.state 0) (some (.state 1))) [] [] ⟨Name.state 1, none, 1⟩
    (unstarred (.state 1)) Bool.false_ne_true rfl

/-- Two tables refer to a third one, and a tree is built; and a tree is refused
though the root refers to the only other table, which refers to none. -/
theorem not_only_conflicts :
    ((∃ first ∈ shared_child, ∃ second ∈ shared_child, first.name ≠ second.name ∧
        first.refers (Name.state 1) ∧ second.refers (Name.state 1)) ∧
      ∃ nodes, build_tree shared_child (single_row (.state 0) (some (.state 1))) =
        .ok nodes) ∧
    (root_tables startless_child (single_row (.state 0) (some (.state 1))) =
        [Name.state 1] ∧
      next_tables startless_child (Name.state 1) = [] ∧
      ∃ error,
        build_tree startless_child (single_row (.state 0) (some (.state 1))) =
          .error error) := by
  refine ⟨⟨⟨_, List.mem_cons_self, single_row (.state 2) (some (.state 1)), ?_, ?_,
    ⟨_, List.mem_cons_self, .inl rfl⟩, ⟨_, List.mem_cons_self, .inl rfl⟩⟩,
    _, shared_child_built⟩, rfl, rfl, _, startless_child_fails⟩
  · exact .tail _ (.tail _ (.head _))
  · intro same
    cases same

end SmlRs.Macros
