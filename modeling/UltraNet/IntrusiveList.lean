/-
Lists whose links are fields of their nodes: a head, and the node behind each node.
Nothing says that the links end, so a walk along them has a limit.
-/
import Mathlib.Logic.Function.Basic
import Mathlib.Data.List.Nodup

namespace UltraNet

universe u v

structure IntrusiveList (A : Type u) where
  head : Option A
  next : A → Option A

namespace IntrusiveList

variable {A : Type u}

/-- The nodes from a position on, in order; a circle has no such list. -/
def Links (next : A → Option A) : Option A → List A → Prop
  | cur, [] => cur = none
  | cur, node :: rest => cur = some node ∧ Links next (next node) rest

def Holds (l : IntrusiveList A) (nodes : List A) : Prop := Links l.next l.head nodes

/-- Something is done at each node. -/
def walk {S : Type v} (l : IntrusiveList A) (visit : S → A → S) :
    Nat → Option A → S → Option S
  | 0, _, _ => none
  | _ + 1, none, state => some state
  | limit + 1, some node, state =>
      walk l visit limit (l.next node) (visit state node)

theorem links_unique {next : A → Option A} {cur : Option A} {first second : List A}
    (hfirst : Links next cur first) (hsecond : Links next cur second) :
    first = second := by
  induction first generalizing cur second with
  | nil =>
      cases second with
      | nil => rfl
      | cons node rest =>
          have hnone : cur = none := hfirst
          rw [hsecond.1] at hnone
          cases hnone
  | cons node rest ih =>
      cases second with
      | nil =>
          have hnone : cur = none := hsecond
          rw [hfirst.1] at hnone
          cases hnone
      | cons other more =>
          obtain rfl := Option.some.inj (hfirst.1.symm.trans hsecond.1)
          rw [ih hfirst.2 hsecond.2]

variable [DecidableEq A]

/-- A link outside of the list. -/
theorem links_update {next : A → Option A} {cur : Option A} {nodes : List A}
    (hlinks : Links next cur nodes) {a : A} (ha : a ∉ nodes) (link : Option A) :
    Links (Function.update next a link) cur nodes := by
  induction nodes generalizing cur with
  | nil => exact hlinks
  | cons node rest ih =>
      obtain ⟨hnode, hrest⟩ := List.ne_and_not_mem_of_not_mem_cons ha
      refine ⟨hlinks.1, ?_⟩
      rw [Function.update_of_ne (Ne.symm hnode)]
      exact ih hlinks.2 hrest

/-- Whatever is done to the link of a node, the way to the node stays. -/
theorem mem_of_links_update {next : A → Option A} {cur : Option A} {nodes more : List A}
    (hlinks : Links next cur nodes) {a : A} (ha : a ∈ nodes) {link : Option A}
    (hmore : Links (Function.update next a link) cur more) : a ∈ more := by
  induction nodes generalizing cur more with
  | nil => cases ha
  | cons node rest ih =>
      cases more with
      | nil =>
          have hnone : cur = none := hmore
          rw [hlinks.1] at hnone
          cases hnone
      | cons other tail =>
          obtain rfl := Option.some.inj (hlinks.1.symm.trans hmore.1)
          by_cases hnode : a = node
          · exact hnode ▸ List.mem_cons_self
          · have hrest := hmore.2
            rw [Function.update_of_ne (Ne.symm hnode)] at hrest
            exact List.mem_cons_of_mem node
              (ih hlinks.2 (List.mem_of_ne_of_mem hnode ha) hrest)

/-- The link of one node is set past the nodes behind it. -/
theorem links_skip {next : A → Option A} {cur link : Option A} {front rest back : List A}
    {node : A} (hlinks : Links next cur (front ++ node :: rest))
    (hback : Links next link back) (hfront : node ∉ front) (hnode : node ∉ back) :
    Links (Function.update next node link) cur (front ++ node :: back) := by
  induction front generalizing cur with
  | nil =>
      refine ⟨hlinks.1, ?_⟩
      rw [Function.update_self]
      exact links_update hback hnode link
  | cons other front ih =>
      obtain ⟨hother, hfront⟩ := List.ne_and_not_mem_of_not_mem_cons hfront
      refine ⟨hlinks.1, ?_⟩
      rw [Function.update_of_ne (Ne.symm hother)]
      exact ih hlinks.2 hfront

def push (l : IntrusiveList A) (a : A) : IntrusiveList A :=
  ⟨some a, Function.update l.next a l.head⟩

theorem holds_push {l : IntrusiveList A} {nodes : List A} (hholds : l.Holds nodes)
    {a : A} (ha : a ∉ nodes) : (l.push a).Holds (a :: nodes) := by
  refine ⟨rfl, ?_⟩
  show Links (Function.update l.next a l.head) (Function.update l.next a l.head a) nodes
  rw [Function.update_self]
  exact links_update hholds ha l.head

/-- A node that is pushed again is met twice on any way to the end. -/
theorem push_again {l : IntrusiveList A} {nodes : List A} (hholds : l.Holds nodes)
    {a : A} (ha : a ∈ nodes) {more : List A} (hmore : (l.push a).Holds more) :
    ¬ more.Nodup := by
  cases more with
  | nil => cases hmore
  | cons node rest =>
      obtain ⟨hnode, hrest⟩ := hmore
      obtain rfl := Option.some.inj hnode
      have hrest : Links (Function.update l.next a l.head)
        (Function.update l.next a l.head a) rest := hrest
      rw [Function.update_self] at hrest
      intro hnodup
      exact (List.nodup_cons.mp hnodup).1 (mem_of_links_update hholds ha hrest)

/-- The walk from `cur` takes the first occurrence of a node out. -/
def removeFrom (l : IntrusiveList A) (a : A) :
    Nat → Option A → Option A → Option (IntrusiveList A)
  | 0, _, _ => none
  | _ + 1, _, none => some l
  | limit + 1, before, some cur =>
      if cur = a then
        some (before.elim ⟨l.next cur, l.next⟩ fun node =>
          ⟨l.head, Function.update l.next node (l.next cur)⟩)
      else removeFrom l a limit (some cur) (l.next cur)

def remove (l : IntrusiveList A) (a : A) (limit : Nat) : Option (IntrusiveList A) :=
  l.removeFrom a limit none l.head

theorem removeFrom_notMem {l : IntrusiveList A} {a : A} {rest : List A} {limit : Nat}
    {before cur : Option A} (hrest : Links l.next cur rest) (ha : a ∉ rest)
    (hlimit : rest.length < limit) : l.removeFrom a limit before cur = some l := by
  induction rest generalizing limit before cur with
  | nil =>
      obtain ⟨limit, rfl⟩ := Nat.exists_eq_succ_of_ne_zero (Nat.ne_of_gt hlimit)
      have hnone : cur = none := hrest
      rw [hnone]
      rfl
  | cons node rest ih =>
      obtain ⟨limit, rfl⟩ := Nat.exists_eq_succ_of_ne_zero
        (Nat.ne_of_gt (Nat.lt_of_le_of_lt (Nat.zero_le _) hlimit))
      obtain ⟨hnode, ha⟩ := List.ne_and_not_mem_of_not_mem_cons ha
      rw [hrest.1, removeFrom, if_neg (Ne.symm hnode)]
      exact ih hrest.2 ha (Nat.lt_of_succ_lt_succ hlimit)

theorem removeFrom_mem {l : IntrusiveList A} {a : A} {front back : List A} {limit : Nat}
    {before cur : Option A} {passed : List A}
    (hholds : l.Holds (passed ++ (front ++ a :: back)))
    (hbefore : before = passed.getLast?) (hcur : Links l.next cur (front ++ a :: back))
    (hnodup : (passed ++ (front ++ a :: back)).Nodup) (hlimit : front.length < limit) :
    ∃ next, l.removeFrom a limit before cur = some next ∧
      next.Holds (passed ++ (front ++ back)) := by
  obtain ⟨limit, rfl⟩ := Nat.exists_eq_succ_of_ne_zero
    (Nat.ne_of_gt (Nat.lt_of_le_of_lt (Nat.zero_le _) hlimit))
  induction front generalizing limit before cur passed with
  | nil =>
      obtain ⟨rfl, hback⟩ := hcur
      rw [removeFrom, if_pos rfl]
      refine ⟨_, rfl, ?_⟩
      rcases List.eq_nil_or_concat passed with rfl | ⟨passed, node, rfl⟩
      · obtain rfl : before = none := hbefore
        exact hback
      · rw [List.concat_eq_append] at hbefore hholds hnodup ⊢
        rw [List.getLast?_append, List.getLast?_singleton, Option.some_or] at hbefore
        obtain rfl := hbefore
        rw [List.append_assoc] at hholds hnodup ⊢
        obtain ⟨-, hrest, happart⟩ := List.nodup_append.mp hnodup
        refine links_skip hholds hback ?_ ?_
        · intro hmem
          exact happart node hmem node List.mem_cons_self rfl
        · intro hmem
          exact (List.nodup_cons.mp hrest).1 (List.mem_cons_of_mem a hmem)
  | cons node front ih =>
      obtain ⟨rfl, hrest⟩ := hcur
      have hnode : node ≠ a := by
        rintro rfl
        have hinner := (List.nodup_append.mp hnodup).2.1
        exact (List.nodup_cons.mp hinner).1
          (List.mem_append_right front List.mem_cons_self)
      have hlimit : front.length < limit := Nat.lt_of_succ_lt_succ hlimit
      obtain ⟨limit, rfl⟩ := Nat.exists_eq_succ_of_ne_zero
        (Nat.ne_of_gt (Nat.lt_of_le_of_lt (Nat.zero_le _) hlimit))
      rw [removeFrom, if_neg hnode]
      have hshift : ∀ tail, passed ++ (node :: front ++ tail) =
          (passed ++ [node]) ++ (front ++ tail) := by simp
      rw [hshift] at hholds hnodup ⊢
      exact ih hholds (by simp) hrest hnodup limit hlimit

theorem remove_notMem {l : IntrusiveList A} {nodes : List A} (hholds : l.Holds nodes)
    {a : A} (ha : a ∉ nodes) {limit : Nat} (hlimit : nodes.length < limit) :
    l.remove a limit = some l :=
  removeFrom_notMem hholds ha hlimit

theorem remove_mem {l : IntrusiveList A} {front back : List A} {a : A}
    (hholds : l.Holds (front ++ a :: back)) (hnodup : (front ++ a :: back).Nodup)
    {limit : Nat} (hlimit : front.length < limit) :
    ∃ next, l.remove a limit = some next ∧ next.Holds (front ++ back) :=
  have hpassed : l.Holds ([] ++ (front ++ a :: back)) := hholds
  removeFrom_mem hpassed rfl hholds hnodup hlimit

omit [DecidableEq A] in
/-- The walk visits the nodes in order. -/
theorem walk_eq {S : Type v} (l : IntrusiveList A) (visit : S → A → S) {nodes : List A}
    {limit : Nat} {cur : Option A} (hlinks : Links l.next cur nodes)
    (hlimit : nodes.length < limit) (state : S) :
    l.walk visit limit cur state = some (nodes.foldl visit state) := by
  induction nodes generalizing limit cur state with
  | nil =>
      obtain ⟨limit, rfl⟩ := Nat.exists_eq_succ_of_ne_zero (Nat.ne_of_gt hlimit)
      have hnone : cur = none := hlinks
      rw [hnone]
      rfl
  | cons node rest ih =>
      obtain ⟨limit, rfl⟩ := Nat.exists_eq_succ_of_ne_zero
        (Nat.ne_of_gt (Nat.lt_of_le_of_lt (Nat.zero_le _) hlimit))
      rw [hlinks.1]
      exact ih hlinks.2 (Nat.lt_of_succ_lt_succ hlimit) (visit state node)

end IntrusiveList

end UltraNet
