import Lox.Proofs.Lexical.Sessions
import Lox.Proofs.Scope.Positions

/-!
# Loops with clauses

What a `for` loop means, told without the `while` loop and the blocks that it is read as.

* `forRounds`, `forLoop` — the loop itself: its first clause runs once, and then condition, body and
  last clause in turn, all of them in the same surroundings.
* `evaluate_congr`, `run_congr` — what runs depends on the surroundings only by the names in them.
* `run_fst` — a statement that declares nothing leaves its surroundings as they were.
* `run_desugarFor` — in surroundings of names and cells, the tree that is read means the loop.
* `forLoop_agree` — so it does on a machine with frames and distances.
-/

namespace Lox.Lexical

/-! ## The loop -/

/-- Condition, body and last clause in turn, as long as the condition holds and the body does not
return. There is fuel for so many rounds. -/
def forRounds (condition : Act (Value Env)) (body : Act (Flow Env)) (last : Act Unit) :
    Nat → Act (Flow Env)
  | 0 => outOfFuel
  | fuel + 1 => do
    if (← condition).truthy then
      match ← body with
      | .returned value => return .returned value
      | .normal =>
        last
        forRounds condition body last fuel
    else return .normal

/-- The condition of a loop. Without one it goes on for good. -/
def test (invoke : Invoke) (env : Env) : Option Expr → Act (Value Env)
  | none => return .bool true
  | some e => evaluate invoke env e

/-- The last clause of a loop. -/
def step (invoke : Invoke) (env : Env) : Option Expr → Act Unit
  | none => return ()
  | some e => do let _ ← evaluate invoke env e

/-- The rounds of a `for` loop. All of them have the same surroundings. -/
def forBody (invoke : Invoke) (fuel : Nat) (env : Env) (condition last : Option Expr)
    (body : Stmt) : Act (Flow Env) :=
  forRounds (test invoke env condition) (Prod.fst <$> run invoke fuel env body)
    (step invoke env last) fuel

/-- A `for` loop. Its first clause has a scope of its own, in which the rounds take place. -/
def forLoop (invoke : Invoke) (fuel : Nat) (env : Env) (first : Option Stmt)
    (condition last : Option Expr) (body : Stmt) : Act (Flow Env) :=
  match first with
  | none => forBody invoke fuel env condition last body
  | some s => do
    match ← run invoke fuel (.inner env.names) s with
    | (.returned value, _) => return .returned value
    | (.normal, env') => forBody invoke fuel env' condition last body

/-! ## Surroundings with the same names -/

variable {I : Invoke} {fuel : Nat} {env env' : Env}

theorem fill_congr (same : env.names = env'.names) (name : Token) (value : Value Env) :
    fill env name value = fill env' name value := by
  funext l
  rw [fill, fill, same]

theorem read_congr (same : env.names = env'.names) (name : Token) :
    read env name = read env' name := by
  funext l
  rw [read, read, Machine.lookup, Machine.lookup, same]

theorem write_congr (same : env.names = env'.names) (name : Token) (value : Value Env) :
    write env name value = write env' name value := by
  funext l
  rw [write, write, Machine.lookup, Machine.lookup, same, fill_congr same]

mutual

/-- The value of an expression depends on the names in its surroundings. -/
theorem evaluate_congr (same : env.names = env'.names) : ∀ e : Expr,
    evaluate I env e = evaluate I env' e
  | .literal _ => rfl
  | .grouping inner => by
    rw [evaluate, evaluate, evaluate_congr same inner]
  | .unary _ right => by
    rw [evaluate, evaluate, evaluate_congr same right]
  | .binary left _ right | .logical left _ right => by
    rw [evaluate, evaluate, evaluate_congr same left, evaluate_congr same right]
  | .var _ name => by
    rw [evaluate, evaluate, read_congr same]
  | .assign _ target value => by
    simp only [evaluate, evaluate_congr same value, write_congr same]
  | .call callee _ arguments => by
    rw [evaluate, evaluate, evaluate_congr same callee, evaluateAll_congr same arguments]

theorem evaluateAll_congr (same : env.names = env'.names) : ∀ es : List Expr,
    evaluateAll I env es = evaluateAll I env' es
  | [] => rfl
  | e :: es => by
    rw [evaluateAll, evaluateAll, evaluate_congr same e, evaluateAll_congr same es]

end

theorem evaluate?_congr (same : env.names = env'.names) (e : Option Expr) :
    evaluate? I env e = evaluate? I env' e := by
  cases e with
  | none => rfl
  | some e => exact evaluate_congr same e

/-- A statement that declares nothing leaves its surroundings as they were. -/
theorem run_fst {s : Stmt} (noDeclaration : s.declared? = none) :
    run I fuel env s = do
      let flow ← Prod.fst <$> run I fuel env s
      return (flow, env) := by
  cases s with
  | ifThen condition yes no => cases no <;> simp [run, apply_ite]
  | var name initializer => cases noDeclaration
  | function name parameters body => cases noDeclaration
  | _ => simp [run]

/-- A statement that declares nothing depends on the names in its surroundings. -/
theorem run_congr (same : env.names = env'.names) : ∀ (s : Stmt) {scopes : Scopes},
    s.declared? = none → s.Tidy scopes →
    Prod.fst <$> run I fuel env s = Prod.fst <$> run I fuel env' s
  | .expression value, _, _, _ => by
    simp [run, evaluate_congr same]
  | .print _ value, _, _, _ => by
    simp [run, evaluate_congr same]
  | .var _ _, _, h, _ => by cases h
  | .function _ _ _, _, h, _ => by cases h
  | .ret _ value, _, _, _ => by
    simp [run, evaluate?_congr same]
  | .block body, _, _, _ => by
    simp [run, same]
  | .ifThen condition yes none, _, _, ⟨noDeclaration, tidy⟩ => by
    have branch : (fun r => r.1) <$> run I fuel env yes = (fun r => r.1) <$> run I fuel env' yes :=
      run_congr same yes noDeclaration tidy
    simp [run, evaluate_congr same, apply_ite, branch]
  | .ifThen condition yes (some no), _, _, ⟨⟨noYes, tidyYes⟩, noNo, tidyNo⟩ => by
    have inYes : (fun r => r.1) <$> run I fuel env yes = (fun r => r.1) <$> run I fuel env' yes :=
      run_congr same yes noYes tidyYes
    have inNo : (fun r => r.1) <$> run I fuel env no = (fun r => r.1) <$> run I fuel env' no :=
      run_congr same no noNo tidyNo
    simp [run, evaluate_congr same, apply_ite, inYes, inNo]
  | .whileDo condition body, _, _, ⟨noDeclaration, tidy⟩ => by
    simp [run, evaluate_congr same, run_congr same body noDeclaration tidy]

/-- A body with the last clause behind it is one round of the loop. The body declares nothing, so
the last clause sees the names that the loop does, though it stands in a block with the body. -/
theorem run_round {body : Stmt} {scopes : Scopes} (noDeclaration : body.declared? = none)
    (tidy : body.Tidy scopes) (last : Option Expr) :
    Prod.fst <$> run I fuel env (match last with
      | some e => .block [body, .expression e]
      | none => body) = do
      match ← Prod.fst <$> run I fuel env body with
      | .returned value => return .returned value
      | .normal =>
        step I env last
        return .normal := by
  cases last with
  | none =>
    have same : ∀ flow : Flow Env, (match flow with
        | .returned value => return .returned value
        | .normal => do
          step I env none
          return .normal) = (pure flow : Act (Flow Env)) := fun flow => by
      cases flow <;> rfl
    simp only [same, bind_pure]
  | some e =>
    have names : env.names = (Env.inner env.names).names := rfl
    rw [run_congr names body noDeclaration tidy, step, evaluate_congr names]
    simp only [run, runAll]
    rw [run_fst noDeclaration]
    simp only [bind_pure_comp, Functor.map_map, bind_map_left, map_bind, id_map']
    refine bind_congr fun r => ?_
    cases r.1 <;> rfl

/-- The last clause may count as the end of the body. -/
theorem forRounds_eq (condition : Act (Value Env)) (body : Act (Flow Env)) (last : Act Unit)
    (n : Nat) :
    forRounds condition body last n = repeatWhile condition (do
      match ← body with
      | .returned value => return .returned value
      | .normal =>
        last
        return .normal) n := by
  induction n with
  | zero => rfl
  | succ n ih =>
    rw [repeatWhile, forRounds, ih]
    refine bind_congr fun v => ?_
    split
    · rw [bind_assoc]
      refine bind_congr fun flow => ?_
      cases flow <;> simp
    · rfl

/-- The `while` loop that is read means the rounds of the `for` loop. -/
theorem run_whileDo {condition last : Option Expr} {body : Stmt} {scopes : Scopes}
    (noDeclaration : body.declared? = none) (tidy : body.Tidy scopes) :
    run I fuel env (.whileDo (condition.getD (.literal (.bool true)))
      (match last with
        | some e => .block [body, .expression e]
        | none => body)) = do
      let flow ← forBody I fuel env condition last body
      return (flow, env) := by
  have holds : evaluate I env (condition.getD (.literal (.bool true))) = test I env condition := by
    cases condition <;> rfl
  rw [run, holds, run_round noDeclaration tidy, forBody, forRounds_eq]

theorem run_block (body : List Stmt) :
    run I fuel env (.block body) = do
      let flow ← runAll I fuel (.inner env.names) body
      return (flow, env) := by
  rw [run]

/-- In surroundings of names and cells, the tree that is read for a `for` loop means the loop. -/
theorem run_desugarFor {first : Option Stmt} {condition last : Option Expr} {body : Stmt}
    {scopes : Scopes} (noDeclaration : body.declared? = none) (tidy : body.Tidy scopes) :
    run I fuel env (Grammar.desugarFor first condition last body) = do
      let flow ← forLoop I fuel env first condition last body
      return (flow, env) := by
  cases first with
  | none => exact run_whileDo noDeclaration tidy
  | some s =>
    have block : run I fuel env (Grammar.desugarFor (some s) condition last body) = do
        let flow ← runAll I fuel (.inner env.names)
          [s, .whileDo (condition.getD (.literal (.bool true))) (match last with
            | some e => .block [body, .expression e]
            | none => body)]
        return (flow, env) := run_block _
    rw [block, forLoop]
    simp only [runAll, run_whileDo noDeclaration tidy, bind_assoc, pure_bind]
    refine bind_congr fun r => ?_
    obtain ⟨flow, env'⟩ := r
    cases flow with
    | returned value => rfl
    | normal =>
      -- Nothing stands behind the `while` loop, so that its end is the end of the block.
      simp only [bind_assoc]
      refine bind_congr fun flow => ?_
      cases flow <;> rfl

/-! ## The loop on frames -/

variable {known : Mention → Prop} {cells : Layout} {m : Lox.Machine} {l : Machine}
variable {scopes scopes' : Scopes} {layers : List Layer}

/-- What a place means depends on the names that its scopes know. -/
theorem At.of_fit (h : At known cells m l scopes env) (fit : List.Forall₂ Layer.Fits scopes layers)
    (fit' : List.Forall₂ Layer.Fits scopes' layers) : At known cells m l scopes' env := by
  have distance (name : String) : scopes'.distance? name = scopes.distance? name :=
    (Layer.distance?_eq fit' name).trans (Layer.distance?_eq fit name).symm
  have nil : scopes' = [] ↔ scopes = [] := by
    rw [← List.length_eq_zero_iff, ← List.length_eq_zero_iff, fit.length_eq, fit'.length_eq]
  refine ⟨h.related, ⟨h.stands.lt, fun none => h.stands.top (nil.1 none),
    fun some => h.stands.inner (mt nil.2 some), fun name hd => ?_, fun name k hd => ?_⟩,
    fun name mem => ?_⟩
  · exact h.stands.global name (distance name ▸ hd)
  · exact h.stands.bound name k (distance name ▸ hd)
  · have taken := h.declared name mem
    cases fit with
    | nil => cases taken
    | cons own _ =>
      cases fit' with
      | cons own' _ =>
        show (List.lookup name _).isSome = true
        rw [own' name, ← own name]
        exact taken

/-- The result that a step rearranges agrees with what it is made of. -/
theorem Agree.of_bind_pure {α β δ : Type} {post : α → δ → Layout → Lox.Machine → Machine → Prop}
    {r : EStateM.Result Halt Lox.Machine α} {y : Act β} {g : β → δ}
    (h : Agree known cells m post r ((do let b ← y; return g b) l)) :
    Agree known cells m (fun a b => post a (g b)) r (y l) := by
  change Agree known cells m post r (EStateM.bind y (fun b => Pure.pure (g b)) l) at h
  unfold EStateM.bind at h
  generalize y l = r' at h ⊢
  cases r' with
  | ok b l' =>
    cases h with
    | ok grows holds => exact .ok grows holds
  | error halt l' =>
    cases h with
    | halt grows related => exact .halt grows related

variable {first : Option Stmt} {condition last : Option Expr} {body : Stmt}

/-- A loop declares nothing around it. -/
theorem declared?_desugarFor :
    (Grammar.desugarFor first condition last body).declared? = none := by
  cases first <;> rfl

/-- Wherever the tree of a loop is tidy, so is the body of the loop in the scopes around it. -/
theorem tidy_body (tidy : (Grammar.desugarFor first condition last body).Tidy scopes) :
    ∃ scopes', body.Tidy scopes' := by
  cases first <;> cases last
  · exact ⟨_, tidy.2⟩
  · exact ⟨_, tidy.2.1⟩
  · exact ⟨_, tidy.2.1.2⟩
  · exact ⟨_, tidy.2.1.2.1⟩

/-- The layers around the rounds of a loop: its first clause stands in one of its own. -/
def roundLayers (first : Option Stmt) (condition last : Option Expr) (body : Stmt)
    (layers : List Layer) : List Layer :=
  match first with
  | none => layers
  | some s => ⟨[], [s], Grammar.desugarFor none condition last body⟩ :: layers

variable {program : Program}

/-- The `while` loop that is read stands in the layers around the rounds. -/
theorem holds_whileDo
    (holds : program.Holds (Grammar.desugarFor first condition last body) layers) :
    program.Holds (Grammar.desugarFor none condition last body)
      (roundLayers first condition last body layers) := by
  cases first with
  | none => exact holds
  | some s => exact holds.inside (.block [s] _ [] .here)

/-- **A `for` loop means what it says.** In a program that resolution accepts, in every state of the
machines that a place of the loop can have, the tree that is read for the loop and the loop itself
give results that belong together: the same output, variables with the same values, the same error
or the same way to end. What the condition names is told from the layers around the rounds, and
what the last clause names as well, one layer further in: the declarations of the body do not
count.

The body of a `for` loop is a statement. This has to be said, for `while (c) { var x; e; }` is read
as the tree of a loop with the last clause `e` and `var x;` for its body. -/
theorem forLoop_agree {firstId nextId : RefId} {tokens : List Token} {program : Program}
    {distances : List (RefId × Nat)} {first : Option Stmt} {condition last : Option Expr}
    {body : Stmt} {layers : List Layer}
    (parsed : Program.ofTokens firstId tokens = (.ok program, nextId))
    (resolved : resolve program = .ok distances)
    (holds : program.Holds (Grammar.desugarFor first condition last body) layers)
    (noDeclaration : body.declared? = none) :
    (∀ (known : Mention → Prop) (cells : Layout) (m : Lox.Machine) (l : Machine) (scopes : Scopes)
        (env : Env) (fuel : Nat), (∀ μ ∈ programMentions program, known μ) →
      List.Forall₂ Layer.Fits scopes layers → At known cells m l scopes env →
      Agree known cells m (Executed known scopes env)
        ((Grammar.desugarFor first condition last body).execute (Lox.invoke fuel) fuel m)
        (forLoop (invoke fuel) fuel env first condition last body l)) ∧
    (∀ e r, condition = some e → r ∈ e.references →
      ((∅ : Std.HashMap RefId Nat).insertMany distances)[r.id]? =
        (roundLayers first condition last body layers).findIdx?
          fun l => l.declares r.name.lexeme) ∧
    ∀ e r, last = some e → r ∈ e.references →
      ((∅ : Std.HashMap RefId Nat).insertMany distances)[r.id]? =
        ((roundLayers first condition last body layers).findIdx?
          fun l => l.declares r.name.lexeme).map (· + 1) := by
  have sound : Checked.Sound firstId nextId ⟨program, distances⟩ :=
    Checked.sound_of_ofTokens parsed resolved
  have rounds := holds_whileDo holds
  refine ⟨fun known cells m l scopes env fuel knows fit h => ?_, fun e r some own => ?_,
    fun e r some own => ?_⟩
  · obtain ⟨q, tidy, mentions, fit'⟩ := holds.place sound.tidy
    rw [Scopes.behind_of_none declared?_desugarFor] at fit'
    obtain ⟨_, tidyBody⟩ := tidy_body tidy
    have agree := Stmt.agree (invokes known fuel) fuel _ (fun μ hμ => knows μ (mentions hμ)) tidy
      (h.of_fit fit fit')
    rw [run_desugarFor noDeclaration tidyBody, Scopes.behind_of_none declared?_desugarFor] at agree
    refine agree.of_bind_pure.weaken fun flow flow' cells' m' l' grows executed => ?_
    exact ⟨executed.1.of_fit fit' fit, executed.2⟩
  · subst some
    exact rounds.distance own sound
  · subst some
    have step : program.Holds (.expression e)
        (⟨[], [body], .expression e⟩ :: roundLayers first condition (some e) body layers) :=
      rounds.inside (.loop (.block [body] _ [] .here))
    have silent (name : String) : Layer.declares ⟨[], [body], .expression e⟩ name = false := by
      have nothing : (Stmt.expression e).declared? = none := rfl
      simp [Layer.declares, Layer.names, Stmt.declaredNames, noDeclaration, nothing]
    rw [step.distance own sound, List.findIdx?_cons, silent]
    rfl

/-- The loop in `for(var i=true;i;i=false)print i;` runs once and prints a line. -/
theorem forLoop_agree_once :
    ∃ m', onceLoop.execute (Lox.invoke 3) 3
        ((Lox.Machine.start none).learn [(0, 0), (3, 1), (2, 1)]) = .ok .normal m' ∧
      m'.sink.bytes = "true\n".toUTF8 := by
  have sound : Checked.Sound 0 4 ⟨[onceLoop], [(0, 0), (3, 1), (2, 1)]⟩ :=
    Checked.sound_of_ofTokens ofTokens_once resolve_once
  have start : Related
      (Known 4 ((∅ : Std.HashMap RefId Nat).insertMany [(0, 0), (3, 1), (2, 1)])) []
      ((Lox.Machine.start none).learn [(0, 0), (3, 1), (2, 1)]) (Machine.start none) :=
    (Related.start none).learn (fun μ hμ => hμ.learned sound (by decide)) fun μ hμ => hμ.2
  have agree := (forLoop_agree ofTokens_once resolve_once ⟨[], onceLoop, [], rfl, .here⟩ rfl).1 _
    [] _ (Machine.start none) [] .top 3
    (fun μ hμ => ⟨(sound.lt_of_mem hμ).2, sound.learned (by simp) hμ⟩) .nil (.top start rfl)
  have direct : ∃ l', forLoop (invoke 3) 3 .top
      (some (.var ⟨.identifier, "i", 1, 8⟩ (some (.literal (.bool true)))))
      (some (.var 0 ⟨.identifier, "i", 1, 15⟩)) (some onceLast) onceBody (Machine.start none) =
        .ok .normal l' ∧ l'.sink.bytes = "true\n".toUTF8 := ⟨_, by rfl, by rfl⟩
  obtain ⟨l', run, printed⟩ := direct
  rw [run] at agree
  change Agree _ _ _ _ (onceLoop.execute (Lox.invoke 3) 3 _) _ at agree
  generalize onceLoop.execute (Lox.invoke 3) 3 _ = r at agree ⊢
  cases agree with
  | ok grows executed =>
    obtain ⟨⟨related, -, -⟩, same⟩ := executed
    cases same
    exact ⟨_, rfl, related.sink ▸ printed⟩

end Lox.Lexical
