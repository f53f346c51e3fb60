import Labyrinth.Grammar.Build
import Labyrinth.Proofs.Tree.Chain

/-!
# Results that are alike

Results of rules are alike if they are the same up to spans, with literals in a given relation. What the
builders look for in results they find in results that are alike.
-/

namespace Labyrinth

open List

mutual

/-- Results that are the same up to places and have related literals. -/
inductive Parsed.Like (R : NumberNode SignRef → NumberNode SignRef → Prop) : Parsed → Parsed → Prop where
  | nothing : Parsed.Like R .nothing .nothing
  | token (t) : Parsed.Like R (.token t) (.token t)
  | cmpOp (op) : Parsed.Like R (.cmpOp op) (.cmpOp op)
  | expr {e e'} : Expr.Like R e e' → Parsed.Like R (.expr e) (.expr e')
  | stmt {s s'} : Stmt.Like R s s' → Parsed.Like R (.stmt s) (.stmt s')
  | type {t t'} : t.content = t'.content → Parsed.Like R (.type t) (.type t')
  | param {p p'} : p.content = p'.content → Parsed.Like R (.param p) (.param p')
  | program {p p'} : Program.Like R p p' → Parsed.Like R (.program p) (.program p')
  | list {xs ys} : ParsedsLike R xs ys → Parsed.Like R (.list xs) (.list ys)
  | tuple {xs ys} : ParsedsLike R xs ys → Parsed.Like R (.tuple xs) (.tuple ys)

/-- Lists of results that are alike one by one. -/
inductive ParsedsLike (R : NumberNode SignRef → NumberNode SignRef → Prop) : List Parsed → List Parsed → Prop where
  | nil : ParsedsLike R [] []
  | cons {x y xs ys} : Parsed.Like R x y → ParsedsLike R xs ys → ParsedsLike R (x :: xs) (y :: ys)

end

variable {R R' : NumberNode SignRef → NumberNode SignRef → Prop}

mutual

theorem Parsed.Like.mono (h : ∀ a b, R a b → R' a b) {x y : Parsed} : Parsed.Like R x y → Parsed.Like R' x y
  | .nothing => .nothing
  | .token t => .token t
  | .cmpOp op => .cmpOp op
  | .expr he => .expr (he.mono h)
  | .stmt hs => .stmt (hs.mono h)
  | .type ht => .type ht
  | .param hp => .param hp
  | .program hp => .program ⟨hp.1, StmtsLike.mono h hp.2⟩
  | .list hs => .list (hs.mono h)
  | .tuple hs => .tuple (hs.mono h)

theorem ParsedsLike.mono (h : ∀ a b, R a b → R' a b) {xs ys : List Parsed} :
    ParsedsLike R xs ys → ParsedsLike R' xs ys
  | .nil => .nil
  | .cons hx hs => .cons (hx.mono h) (hs.mono h)

end

variable {xs : List Parsed} {ς τ : Type} {y y' y'' : Parsed}

theorem parsedsLike_iff {ys : List Parsed} : ParsedsLike R xs ys ↔ Forall₂ (Parsed.Like R) xs ys := by
  constructor
  · intro h
    induction xs generalizing ys with
    | nil =>
      cases h
      exact .nil
    | cons x xs ih =>
      cases h with
      | cons hx hs => exact .cons hx (ih hs)
  · intro h
    induction h with
    | nil => exact .nil
    | cons hx _ ih => exact .cons hx ih

theorem exprsLike_iff {R : NumberNode ς → NumberNode τ → Prop} {es : List (Expr ς)} {es' : List (Expr τ)} :
    ExprsLike R es es' ↔ Forall₂ (Expr.Like R) es es' := by
  constructor
  · intro h
    induction es generalizing es' with
    | nil =>
      cases h
      exact .nil
    | cons e es ih =>
      cases h with
      | cons he hs => exact .cons he (ih hs)
  · intro h
    induction h with
    | nil => exact .nil
    | cons he _ ih => exact .cons he ih

theorem stmtsLike_iff {R : NumberNode ς → NumberNode τ → Prop} {ss : List (Stmt ς)} {ss' : List (Stmt τ)} :
    StmtsLike R ss ss' ↔ Forall₂ (Stmt.Like R) ss ss' := by
  constructor
  · intro h
    induction ss generalizing ss' with
    | nil =>
      cases h
      exact .nil
    | cons s ss ih =>
      cases h with
      | cons hs hss => exact .cons hs (ih hss)
  · intro h
    induction h with
    | nil => exact .nil
    | cons hs _ ih => exact .cons hs ih

/-! ### What a result is like -/

theorem ParsedsLike.one (h : ParsedsLike R xs [y]) : ∃ x, xs = [x] ∧ Parsed.Like R x y := by
  cases h with
  | cons hx hs =>
    cases hs
    exact ⟨_, rfl, hx⟩

theorem ParsedsLike.two (h : ParsedsLike R xs [y, y']) :
    ∃ x x', xs = [x, x'] ∧ Parsed.Like R x y ∧ Parsed.Like R x' y' := by
  cases h with
  | cons hx hs =>
    obtain ⟨x', rfl, hx'⟩ := hs.one
    exact ⟨_, x', rfl, hx, hx'⟩

theorem ParsedsLike.three (h : ParsedsLike R xs [y, y', y'']) :
    ∃ x x' x'', xs = [x, x', x''] ∧ Parsed.Like R x y ∧ Parsed.Like R x' y' ∧ Parsed.Like R x'' y'' := by
  cases h with
  | cons hx hs =>
    obtain ⟨x', x'', rfl, hx', hx''⟩ := hs.two
    exact ⟨_, x', x'', rfl, hx, hx', hx''⟩

theorem ParsedsLike.four {z : Parsed} (h : ParsedsLike R xs [y, y', y'', z]) :
    ∃ x x' x'' w, xs = [x, x', x'', w] ∧ Parsed.Like R x y ∧ Parsed.Like R x' y' ∧
      Parsed.Like R x'' y'' ∧ Parsed.Like R w z := by
  cases h with
  | cons hx hs =>
    obtain ⟨x', x'', w, rfl, hx', hx'', hz⟩ := hs.three
    exact ⟨_, x', x'', w, rfl, hx, hx', hx'', hz⟩

theorem Expr.Like.of_name {e : Expr SignRef} {m : NameNode} (h : Expr.Like R e (.name m)) :
    ∃ n, e = .name n ∧ n.content = m.content := by
  cases h with
  | name hn => exact ⟨_, rfl, hn⟩

namespace Parsed

variable {x y : Parsed}

theorem Like.of_token {t : Token} (h : Like R x (.token t)) : x = .token t := by
  cases h
  rfl

theorem Like.of_expr {e' : Expr SignRef} (h : Like R x (.expr e')) : ∃ e, x = .expr e ∧ Expr.Like R e e' := by
  cases h with
  | expr he => exact ⟨_, rfl, he⟩

theorem Like.of_name {m : NameNode} (h : Like R x (.expr (.name m))) :
    ∃ n, x = .expr (.name n) ∧ n.content = m.content := by
  obtain ⟨e, rfl, he⟩ := h.of_expr
  obtain ⟨n, rfl, hn⟩ := he.of_name
  exact ⟨n, rfl, hn⟩

theorem Like.of_type {t' : TypeNode} (h : Like R x (.type t')) : ∃ t, x = .type t ∧ t.content = t'.content := by
  cases h with
  | type ht => exact ⟨_, rfl, ht⟩

theorem Like.of_list {ys : List Parsed} (h : Like R x (.list ys)) : ∃ xs, x = .list xs ∧ ParsedsLike R xs ys := by
  cases h with
  | list hs => exact ⟨_, rfl, hs⟩

theorem Like.of_nothing (h : Like R x .nothing) : x = .nothing := by
  cases h
  rfl

theorem Like.succeeds (h : Like R x y) : x.succeeds = y.succeeds := by
  cases h with
  | list hs => cases hs <;> rfl
  | tuple hs => cases hs <;> rfl
  | _ => rfl

theorem Like.isNothing (h : Like R x y) : x.isNothing = y.isNothing := by
  cases h <;> rfl

theorem Like.items (h : Like R x y) : Forall₂ (Like R) x.items y.items := by
  cases h with
  | list hs => exact parsedsLike_iff.1 hs
  | tuple hs => exact parsedsLike_iff.1 hs
  | _ => exact .nil

end Parsed

namespace Parser

variable {x y : Parsed}

theorem exprsOf_like (h : Parsed.Like R x y) : ExprsLike R (exprsOf x) (exprsOf y) := by
  refine exprsLike_iff.2 (rel_filterMap (fun a b hab => ?_) h.items)
  cases hab with
  | expr he => exact .some he
  | _ => exact .none

theorem paramsOf_like (h : Parsed.Like R x y) :
    (paramsOf x).map ParamNode.content = (paramsOf y).map ParamNode.content := by
  rw [← forall₂_eq_eq_eq, forall₂_map_left_iff, forall₂_map_right_iff]
  refine rel_filterMap (fun a b hab => ?_) h.items
  cases hab with
  | param hp => exact .some hp
  | _ => exact .none

theorem namesOf_like (h : Parsed.Like R x y) :
    (namesOf x).map NameNode.content = (namesOf y).map NameNode.content := by
  rw [← forall₂_eq_eq_eq, forall₂_map_left_iff, forall₂_map_right_iff]
  refine rel_filterMap (fun a b hab => ?_) h.items
  cases hab with
  | expr he =>
    cases he with
    | name hn => exact .some hn
    | _ => exact .none
  | _ => exact .none

variable {xs ys : List Parsed}

theorem filterMap_stmt_like (h : ParsedsLike R xs ys) : StmtsLike R (xs.filterMap fun | .stmt s => some s | _ => none)
      (ys.filterMap fun | .stmt s => some s | _ => none) := by
  refine stmtsLike_iff.2 (rel_filterMap (fun a b hab => ?_) (parsedsLike_iff.1 h))
  cases hab with
  | stmt hs => exact .some hs
  | _ => exact .none

theorem stmtsOf_like (h : Parsed.Like R x y) : StmtsLike R (stmtsOf x) (stmtsOf y) := by
  cases h with
  | tuple hs =>
    cases hs with
    | nil => exact .nil
    | cons hx hs =>
      cases hs with
      | nil =>
        cases hx with
        | list hxs => exact filterMap_stmt_like hxs
        | _ => exact .nil
      | cons hx' _ => cases hx <;> exact .nil
  | _ => exact .nil

theorem flatten_like (h : Forall₂ (Parsed.Like R) xs ys) :
    ParsedsLike R (xs.flatMap fun | .tuple [.list items] => items | _ => [])
      (ys.flatMap fun | .tuple [.list items] => items | _ => []) := by
  refine parsedsLike_iff.2 ?_
  induction h with
  | nil => exact .nil
  | @cons x y xs ys hx _ ih =>
    rw [flatMap_cons, flatMap_cons]
    refine rel_append ?_ ih
    cases hx with
    | tuple hs =>
      cases hs with
      | nil => exact .nil
      | cons hx hs =>
        cases hs with
        | nil =>
          cases hx with
          | list hxs => exact parsedsLike_iff.1 hxs
          | _ => exact .nil
        | cons hx' _ => cases hx <;> exact .nil
    | _ => exact .nil

theorem tailsOf_like (h : Parsed.Like R x y) :
    Forall₂ (Chain.TailsAlike (Expr.Like R)) (tailsOf x) (tailsOf y) := by
  refine rel_filterMap (fun a b hab => ?_) h.items
  cases hab with
  | list hs =>
    cases hs with
    | nil => exact .none
    | cons hx hs =>
      cases hs with
      | nil => cases hx <;> exact .none
      | cons hx' hs =>
        cases hs with
        | nil =>
          cases hx with
          | token t =>
            cases hx' with
            | expr he => exact .some ⟨rfl, he⟩
            | _ => exact .none
          | _ => exact .none
        | cons _ _ => cases hx <;> cases hx' <;> exact .none
  | _ => exact .none

theorem comparesOf_like (h : Parsed.Like R x y) :
    Forall₂ (fun a b => a.1 = b.1 ∧ Expr.Like R a.2 b.2) (comparesOf x) (comparesOf y) := by
  refine rel_filterMap (fun a b hab => ?_) h.items
  cases hab with
  | tuple hs =>
    cases hs with
    | nil => exact .none
    | cons hx hs =>
      cases hs with
      | nil => cases hx <;> exact .none
      | cons hx' hs =>
        cases hs with
        | nil =>
          cases hx with
          | cmpOp op =>
            cases hx' with
            | expr he => exact .some ⟨rfl, he⟩
            | _ => exact .none
          | _ => exact .none
        | cons _ _ => cases hx <;> cases hx' <;> exact .none
  | _ => exact .none

theorem comparesOf_split (h : Parsed.Like R x y) :
    (comparesOf x).map Prod.fst = (comparesOf y).map Prod.fst ∧
      ExprsLike R ((comparesOf x).map Prod.snd) ((comparesOf y).map Prod.snd) := by
  have hall := comparesOf_like h
  rw [← forall₂_eq_eq_eq, exprsLike_iff]
  simp only [forall₂_map_left_iff, forall₂_map_right_iff]
  exact ⟨hall.imp fun _ _ h => h.1, hall.imp fun _ _ h => h.2⟩

/-- Chains with operands that are alike become assignments that are alike. -/
theorem assemble_like {first first' : Expr SignRef} {rest rest' : List (Flow × Expr SignRef)}
    (hf : Expr.Like R first first') (hr : Forall₂ (Chain.TailsAlike (Expr.Like R)) rest rest') :
    PartsLike R ((Chain.assemble first rest).1.map fun part => .mk part.span part.targets part.value)
        ((Chain.assemble first' rest').1.map fun part => .mk part.span part.targets part.value) ∧
      ((Chain.assemble first rest).2 = [] ↔ (Chain.assemble first' rest').2 = []) := by
  have htarget : ∀ a b : Expr SignRef, Expr.Like R a b → ChainOperand.isTarget a = ChainOperand.isTarget b := by
    intro a b hab
    cases hab <;> rfl
  obtain ⟨hparts, hbads⟩ := Chain.assemble_alike htarget hf hr
  refine ⟨?_, ?_⟩
  · generalize (Chain.assemble first rest).1 = parts, (Chain.assemble first' rest').1 = parts' at hparts
    induction hparts with
    | nil => exact .nil
    | cons hp _ ih => exact .cons hp.1 (exprsLike_iff.2 hp.2.1) hp.2.2 ih
  · rw [← length_eq_zero_iff, ← length_eq_zero_iff, hbads.length_eq]

end Parser

end Labyrinth
