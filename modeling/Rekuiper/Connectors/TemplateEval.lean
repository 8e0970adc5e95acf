import Rekuiper.Connectors.TemplateScanner

/-!
# Rendering data templates

A tree is evaluated with the data as its dot. Assignments last for the rest of the template, those
in the body of a `range` for one element. A template that has no tree is its own result.
-/

namespace Rekuiper.Connectors.DataTemplate

open Lib

variable {F : Type} [Float64 F]

structure ExecContext (F : Type) where
  dot : TemplateValue F
  root : TemplateValue F
  vars : HashMap String (TemplateValue F)

namespace ExecContext

def setVar (ctx : ExecContext F) (name : String) (value : TemplateValue F) : ExecContext F :=
  { ctx with vars := ctx.vars.insert name value }

def base (ctx : ExecContext F) : PathBase → TemplateValue F
  | .dot => ctx.dot
  | .var name => if name = "$" then ctx.root else (ctx.vars.lookup name).getD .noValue

/-- The context of an element of a `range`; `key` is its index or its key. -/
def enter (ctx : ExecContext F) (vars : Option (String × Option String))
    (key element : TemplateValue F) : ExecContext F :=
  let inner := { ctx with dot := element }
  match vars with
  | none => inner
  | some (v, none) => inner.setVar v element
  | some (i, some v) => (inner.setVar i key).setVar v element

end ExecContext

def fieldPath (value : TemplateValue F) : List String → TemplateValue F
  | [] => value
  | f :: fields =>
    match value with
    | .map m =>
      match m.lookup f with
      | some v => fieldPath v fields
      | none => .noValue
    | _ => .noValue

def functionName : Term F → String
  | .ident name => name
  | .fieldPath _ fields => fields.getLast?.getD ""
  | _ => ""

mutual
def evalTerm (env : TemplateEnv F) (ctx : ExecContext F) : Term F → Except Stop (TemplateValue F)
  | .fieldPath base fields => .ok (fieldPath (ctx.base base) fields)
  | .stringLit s => .ok (.string s)
  | .intLit i => .ok (.int i)
  | .floatLit f => .ok (.float f)
  | .boolLit b => .ok (.bool b)
  | .nilLit => .ok .nil
  | .ident name =>
    if name = "json" ∨ name = "toJson" then .ok (callJson env ctx.dot) else .ok (.string name)
  | .subExpr pipeline => evalPipeline env ctx none pipeline
def evalPipeline (env : TemplateEnv F) (ctx : ExecContext F) :
    Option (TemplateValue F) → List (List (Term F)) → Except Stop (TemplateValue F)
  | current, [] => .ok (current.getD .noValue)
  | current, command :: rest => do
    let value ← evalCommand env ctx current command
    evalPipeline env ctx (some value) rest
def evalCommand (env : TemplateEnv F) (ctx : ExecContext F) :
    Option (TemplateValue F) → List (Term F) → Except Stop (TemplateValue F)
  | _, [] => .ok .noValue
  | none, [term] => evalTerm env ctx term
  | piped, first :: rest => do
    let args ← evalTerms env ctx rest
    callFunction env (functionName first) (args ++ piped.toList) ctx.dot
def evalTerms (env : TemplateEnv F) (ctx : ExecContext F) :
    List (Term F) → Except Stop (List (TemplateValue F))
  | [] => .ok []
  | term :: rest => do
    let value ← evalTerm env ctx term
    let values ← evalTerms env ctx rest
    return value :: values
end

/-- The elements of a `range` with their indexes or keys -/
def elements : TemplateValue F → List (TemplateValue F × TemplateValue F)
  | .array items => items.zipIdx.map fun x => (.int (Int64.ofNat x.2), x.1)
  | .map fields => fields.map fun field => (.string field.1, field.2)
  | _ => []

mutual
def evalNode (env : TemplateEnv F) :
    Node F → ExecContext F → Except Stop (String × ExecContext F)
  | .text s, ctx => .ok (s, ctx)
  | .action assignVars pipeline, ctx => do
    let value ← evalPipeline env ctx none pipeline
    match assignVars with
    | some [name] => return ("", ctx.setVar name value)
    | some _ => return ("", ctx)
    | none => return (value.render env, ctx)
  | .cond branches elseBranch, ctx => do
    match ← evalBranches env branches ctx with
    | some r => return r
    | none => evalElse env elseBranch ctx
  | .range vars pipeline body elseBranch, ctx => do
    let target ← evalPipeline env ctx none pipeline
    if (elements target).isEmpty then evalElse env elseBranch ctx
    else
      let outs ← (elements target).mapM fun x => evalNodes env body (ctx.enter vars x.1 x.2)
      return (String.join (outs.map Prod.fst), ctx)
def evalNodes (env : TemplateEnv F) :
    List (Node F) → ExecContext F → Except Stop (String × ExecContext F)
  | [], ctx => .ok ("", ctx)
  | node :: rest, ctx => do
    let first ← evalNode env node ctx
    let more ← evalNodes env rest first.2
    return (first.1 ++ more.1, more.2)
/-- The first branch whose condition holds -/
def evalBranches (env : TemplateEnv F) : List (List (List (Term F)) × List (Node F)) →
    ExecContext F → Except Stop (Option (String × ExecContext F))
  | [], _ => .ok none
  | (cond, body) :: rest, ctx => do
    let value ← evalPipeline env ctx none cond
    if value.isTruthy then
      let r ← evalNodes env body ctx
      return some r
    else evalBranches env rest ctx
def evalElse (env : TemplateEnv F) :
    Option (List (Node F)) → ExecContext F → Except Stop (String × ExecContext F)
  | none, ctx => .ok ("", ctx)
  | some nodes, ctx => evalNodes env nodes ctx
end

def applyDataTemplateValue (cls : CharClasses) (env : TemplateEnv F) (template : String)
    (data : Value F) : Except Stop String :=
  match parseTemplate cls env template with
  | .error _ => .ok template
  | .ok nodes => do
    let root := TemplateValue.fromJson data
    let r ← evalNodes env nodes ⟨root, root, ∅⟩
    return r.1

end Rekuiper.Connectors.DataTemplate
