import EntityGraph.Graph.File

/-!
# Equality of graphs

References and entities contain lists of themselves, so their equality is decided by recursion through
those lists: `Reference.same_iff`, `Entity.same_iff` and `Output.same_iff` say that the Boolean tests
decide equality, and all types of a graph get it from there.
-/

namespace EntityGraph

/-! ## References -/

mutual

def Reference.same : Reference → Reference → Bool
  | .name a, .name b => a == b
  | .attribute a x, .attribute b y => Receiver.same a b && x == y
  | .call a, .call b => Call.same a b
  | .logic k c p e l, .logic k' c' p' e' l' =>
    k == k' && Reference.sameOption c c' && Reference.sameList p p' && Reference.sameOption e e' &&
      l == l'
  | .unmodeled a, .unmodeled b => a == b
  | _, _ => false

def Receiver.same : Receiver → Receiver → Bool
  | .one a, .one b => Reference.same a b
  | .many a, .many b => Reference.sameList a b
  | .absent, .absent => true
  | _, _ => false

def Call.same : Call → Call → Bool
  | ⟨n, l, o, t⟩, ⟨n', l', o', t'⟩ => n == n' && l == l' && o == o' && Reference.sameList t t'

def Reference.sameList : List Reference → List Reference → Bool
  | [], [] => true
  | a :: as, b :: bs => Reference.same a b && Reference.sameList as bs
  | _, _ => false

def Reference.sameOption : Option (List Reference) → Option (List Reference) → Bool
  | none, none => true
  | some as, some bs => Reference.sameList as bs
  | _, _ => false

end

mutual

theorem Reference.same_iff : ∀ a b : Reference, Reference.same a b = true ↔ a = b
  | .name _, b => by cases b <;> simp [Reference.same]
  | .attribute a _, b => by cases b <;> simp [Reference.same, Receiver.same_iff a]
  | .call a, b => by cases b <;> simp [Reference.same, Call.same_iff a]
  | .logic _ c p e _, b => by
    cases b <;>
      simp [Reference.same, Reference.sameOption_iff c, Reference.sameList_iff p,
        Reference.sameOption_iff e, and_assoc]
  | .unmodeled _, b => by cases b <;> simp [Reference.same]

theorem Receiver.same_iff : ∀ a b : Receiver, Receiver.same a b = true ↔ a = b
  | .one a, b => by cases b <;> simp [Receiver.same, Reference.same_iff a]
  | .many a, b => by cases b <;> simp [Receiver.same, Reference.sameList_iff a]
  | .absent, b => by cases b <;> simp [Receiver.same]

theorem Call.same_iff : ∀ a b : Call, Call.same a b = true ↔ a = b
  | ⟨_, _, _, t⟩, ⟨_, _, _, _⟩ => by simp [Call.same, Reference.sameList_iff t, and_assoc]

theorem Reference.sameList_iff : ∀ a b : List Reference, Reference.sameList a b = true ↔ a = b
  | [], b => by cases b <;> simp [Reference.sameList]
  | a :: as, b => by
    cases b <;> simp [Reference.sameList, Reference.same_iff a, Reference.sameList_iff as]

theorem Reference.sameOption_iff :
    ∀ a b : Option (List Reference), Reference.sameOption a b = true ↔ a = b
  | none, b => by cases b <;> simp [Reference.sameOption]
  | some as, b => by cases b <;> simp [Reference.sameOption, Reference.sameList_iff as]

end

instance : DecidableEq Reference := fun a b => decidable_of_iff _ (Reference.same_iff a b)

instance : DecidableEq Call := fun a b => decidable_of_iff _ (Call.same_iff a b)

deriving instance DecidableEq for Target, Variable

/-! ## Entities -/

mutual

def Entity.same : Entity → Entity → Bool
  | .call a, .call b => a == b
  | .binding a, .binding b => a == b
  | .logic k c p e l, .logic k' c' p' e' l' =>
    k == k' && c == c' && Entity.sameList p p' && Entity.sameOption e e' && l == l'
  | _, _ => false

def Entity.sameList : List Entity → List Entity → Bool
  | [], [] => true
  | a :: as, b :: bs => Entity.same a b && Entity.sameList as bs
  | _, _ => false

def Entity.sameOption : Option (List Entity) → Option (List Entity) → Bool
  | none, none => true
  | some as, some bs => Entity.sameList as bs
  | _, _ => false

end

mutual

theorem Entity.same_iff : ∀ a b : Entity, Entity.same a b = true ↔ a = b
  | .call _, b => by cases b <;> simp [Entity.same]
  | .binding _, b => by cases b <;> simp [Entity.same]
  | .logic _ _ p e _, b => by
    cases b <;>
      simp [Entity.same, Entity.sameList_iff p, Entity.sameOption_iff e, and_assoc]

theorem Entity.sameList_iff : ∀ a b : List Entity, Entity.sameList a b = true ↔ a = b
  | [], b => by cases b <;> simp [Entity.sameList]
  | a :: as, b => by
    cases b <;> simp [Entity.sameList, Entity.same_iff a, Entity.sameList_iff as]

theorem Entity.sameOption_iff :
    ∀ a b : Option (List Entity), Entity.sameOption a b = true ↔ a = b
  | none, b => by cases b <;> simp [Entity.sameOption]
  | some as, b => by cases b <;> simp [Entity.sameOption, Entity.sameList_iff as]

end

instance : DecidableEq Entity := fun a b => decidable_of_iff _ (Entity.same_iff a b)

/-! ## Declarations -/

mutual

def Output.same : Output → Output → Bool
  | .name a, .name b => a == b
  | .constant a, .constant b => a == b
  | .dumped a, .dumped b => a == b
  | .group a, .group b => Output.sameList a b
  | .pair a b, .pair c d => Output.sameList a c && Output.sameList b d
  | .binOp a b, .binOp c d => Output.sameList a c && Output.sameList b d
  | _, _ => false

def Output.sameList : List Output → List Output → Bool
  | [], [] => true
  | a :: as, b :: bs => Output.same a b && Output.sameList as bs
  | _, _ => false

end

mutual

theorem Output.same_iff : ∀ a b : Output, Output.same a b = true ↔ a = b
  | .name _, b => by cases b <;> simp [Output.same]
  | .constant _, b => by cases b <;> simp [Output.same]
  | .dumped _, b => by cases b <;> simp [Output.same]
  | .group a, b => by cases b <;> simp [Output.same, Output.sameList_iff a]
  | .pair a c, b => by
    cases b <;> simp [Output.same, Output.sameList_iff a, Output.sameList_iff c]
  | .binOp a c, b => by
    cases b <;> simp [Output.same, Output.sameList_iff a, Output.sameList_iff c]

theorem Output.sameList_iff : ∀ a b : List Output, Output.sameList a b = true ↔ a = b
  | [], b => by cases b <;> simp [Output.sameList]
  | a :: as, b => by
    cases b <;> simp [Output.sameList, Output.same_iff a, Output.sameList_iff as]

end

instance : DecidableEq Output := fun a b => decidable_of_iff _ (Output.same_iff a b)

deriving instance DecidableEq for Function, Class, File

end EntityGraph
