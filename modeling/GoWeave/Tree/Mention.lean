import GoWeave.Tree

/-!
# Mentions

Everything a tree mentions by name, in source order: declared names, uses, selected members and
the names of parameters and fields alike. Labels are a name space of their own and are not
mentioned. Bad nodes are listed in their place, since their text may mention anything.
-/
namespace GoWeave

inductive Mention where
  | name (name : String)
  | bad (node : BadNode)

namespace Mention

def name? : Mention → Option String
  | name n => some n
  | bad _ => none

end Mention

def ImportSpec.mentions (spec : ImportSpec) : List Mention :=
  spec.name.toList.map .name

mutual

def Expr.mentions : Expr → List Mention
  | .bad node => [.bad node]
  | .ident name => [.name name]
  | .ellipsis elt => Expr.mentionsOpt elt
  | .literal _ => []
  | .funcLit sig body => sig.mentions ++ Stmt.mentionsAll body
  | .composite ty elts _ => Expr.mentionsOpt ty ++ Expr.mentionsAll elts
  | .paren x => x.mentions
  | .selector x sel => x.mentions ++ [.name sel]
  | .index x arg => x.mentions ++ arg.mentions
  | .indexList x args => x.mentions ++ Expr.mentionsAll args
  | .slice x low high max _ =>
    x.mentions ++ Expr.mentionsOpt low ++ Expr.mentionsOpt high ++ Expr.mentionsOpt max
  | .typeAssert x ty => x.mentions ++ Expr.mentionsOpt ty
  | .call fn args _ => fn.mentions ++ Expr.mentionsAll args
  | .star x => x.mentions
  | .unary _ x => x.mentions
  | .binary _ x y => x.mentions ++ y.mentions
  | .keyValue key value => key.mentions ++ value.mentions
  | .arrayType len elt => Expr.mentionsOpt len ++ elt.mentions
  | .structType fields _ => Field.mentionsAll fields
  | .funcType sig => sig.mentions
  | .interfaceType methods _ => Field.mentionsAll methods
  | .mapType key value => key.mentions ++ value.mentions
  | .chanType _ value => value.mentions

def Expr.mentionsOpt : Option Expr → List Mention
  | none => []
  | some x => x.mentions

def Expr.mentionsAll : List Expr → List Mention
  | [] => []
  | x :: xs => x.mentions ++ Expr.mentionsAll xs

def Field.mentions : Field → List Mention
  | ⟨names, ty, _⟩ => names.map .name ++ ty.mentions

def Field.mentionsAll : List Field → List Mention
  | [] => []
  | f :: fs => f.mentions ++ Field.mentionsAll fs

def Field.mentionsOpt : Option (List Field) → List Mention
  | none => []
  | some fields => Field.mentionsAll fields

def Signature.mentions : Signature → List Mention
  | ⟨typeParams, params, results⟩ =>
    Field.mentionsOpt typeParams ++ Field.mentionsAll params ++ Field.mentionsOpt results

def Stmt.mentions : Stmt → List Mention
  | .bad node => [.bad node]
  | .decl group => group.mentions
  | .empty => []
  | .labeled _ stmt => stmt.mentions
  | .expr x => x.mentions
  | .send chan value => chan.mentions ++ value.mentions
  | .incDec x _ => x.mentions
  | .assign lhs _ rhs => Expr.mentionsAll lhs ++ Expr.mentionsAll rhs
  | .goCall x => x.mentions
  | .deferCall x => x.mentions
  | .ret results => Expr.mentionsAll results
  | .branch .. => []
  | .block list => Stmt.mentionsAll list
  | .ifElse init cond body orElse =>
    Stmt.mentionsOpt init ++ cond.mentions ++ Stmt.mentionsAll body ++ Stmt.mentionsOpt orElse
  | .switch init tag body =>
    Stmt.mentionsOpt init ++ Expr.mentionsOpt tag ++ Clause.mentionsAll body
  | .typeSwitch init guard body =>
    Stmt.mentionsOpt init ++ guard.mentions ++ Clause.mentionsAll body
  | .loop init cond post body =>
    Stmt.mentionsOpt init ++ Expr.mentionsOpt cond ++ Stmt.mentionsOpt post ++ Stmt.mentionsAll body
  | .range key value _ x body =>
    Expr.mentionsOpt key ++ Expr.mentionsOpt value ++ x.mentions ++ Stmt.mentionsAll body

def Stmt.mentionsOpt : Option Stmt → List Mention
  | none => []
  | some s => s.mentions

def Stmt.mentionsAll : List Stmt → List Mention
  | [] => []
  | s :: ss => s.mentions ++ Stmt.mentionsAll ss

def Clause.mentions : Clause → List Mention
  | .matching list body => Expr.mentionsAll list ++ Stmt.mentionsAll body
  | .otherwise body => Stmt.mentionsAll body

def Clause.mentionsAll : List Clause → List Mention
  | [] => []
  | c :: cs => c.mentions ++ Clause.mentionsAll cs

def ValueSpec.mentions : ValueSpec → List Mention
  | ⟨names, ty, values⟩ => names.map .name ++ Expr.mentionsOpt ty ++ Expr.mentionsAll values

def TypeSpec.mentions : TypeSpec → List Mention
  | ⟨name, typeParams, _, ty⟩ => .name name :: Field.mentionsOpt typeParams ++ ty.mentions

def Spec.mentions : Spec → List Mention
  | .imported spec => spec.mentions
  | .value spec => spec.mentions
  | .type spec => spec.mentions

def Spec.mentionsAll : List Spec → List Mention
  | [] => []
  | s :: ss => s.mentions ++ Spec.mentionsAll ss

def DeclGroup.mentions : DeclGroup → List Mention
  | ⟨_, specs, _⟩ => Spec.mentionsAll specs

end

def FuncDecl.mentions (f : FuncDecl) : List Mention :=
  Field.mentionsOpt f.recv ++ .name f.name :: f.sig.mentions ++ Stmt.mentionsAll (f.body.getD [])

def Decl.mentions : Decl → List Mention
  | .bad node => [.bad node]
  | .group g => g.mentions
  | .func f => f.mentions

def SourceFile.mentions (file : SourceFile) : List Mention :=
  file.decls.flatMap Decl.mentions

/-- Whether one of the expressions mentions a name anywhere. -/
def Expr.anyMentions (name : String) (xs : List Expr) : Bool :=
  (Expr.mentionsAll xs).any (·.name? == some name)

end GoWeave
