import ScriptEngine.Tree.Basic

/-!
This module contains the structural equality of trees. Numbers are compared by value, so a tree that
holds a `NaN` is not the same as itself.
-/

namespace ScriptEngine

set_option maxHeartbeats 400000 in
mutual

/-- Whether two expressions have the same structure. -/
def Expr.same (a b : Expr) : Bool :=
  match a with
  | .int x => match b with
    | .int y => x == y
    | _ => false
  | .float x => match b with
    | .float y => x == y
    | _ => false
  | .decimal x => match b with
    | .decimal y => x == y
    | _ => false
  | .str x => match b with
    | .str y => x == y
    | _ => false
  | .bytes x => match b with
    | .bytes y => x == y
    | _ => false
  | .bool x => match b with
    | .bool y => x == y
    | _ => false
  | .nil => match b with
    | .nil => true
    | _ => false
  | .undefined => match b with
    | .undefined => true
    | _ => false
  | .toStr x => match b with
    | .toStr y => x.same y
    | _ => false
  | .array xs => match b with
    | .array ys => ArrayItem.sameList xs ys
    | _ => false
  | .object xs => match b with
    | .object ys => ObjectItem.sameList xs ys
    | _ => false
  | .func x => match b with
    | .func y => x.same y
    | _ => false
  | .ident x => match b with
    | .ident y => x == y
    | _ => false
  | .member x n => match b with
    | .member y k => x.same y && n == k
    | _ => false
  | .index x i => match b with
    | .index y j => x.same y && i.same j
    | _ => false
  | .slice x f l => match b with
    | .slice y g m => x.same y && Expr.sameOption f g && Expr.sameOption l m
    | _ => false
  | .call x => match b with
    | .call y => x.same y
    | _ => false
  | .new x as => match b with
    | .new y bs => x.same y && Arg.sameList as bs
    | _ => false
  | .binary op l r => match b with
    | .binary op' l' r' => op == op' && l.same l' && r.same r'
    | _ => false
  | .unary op x => match b with
    | .unary op' y => op == op' && x.same y
    | _ => false
  | .compare x ls => match b with
    | .compare y ls' => x.same y && Link.sameList ls ls'
    | _ => false
  | .assign t x => match b with
    | .assign t' y => t.same t' && x.same y
    | _ => false
  | .define ns s x => match b with
    | .define ns' s' y => ns == ns' && s == s' && x.same y
    | _ => false
  | .defineAll x => match b with
    | .defineAll y => x.same y
    | _ => false
  | .increment t d p => match b with
    | .increment t' d' p' => t.same t' && d == d' && p == p'
    | _ => false
  | .arrayOf h x => match b with
    | .arrayOf h' y => h.same h' && x.same y
    | _ => false
  | .objectOf h k x => match b with
    | .objectOf h' k' y => h.same h' && k.same k' && x.same y
    | _ => false
  | .when cs o => match b with
    | .when cs' o' => WhenCase.sameList cs cs' && Expr.sameOption o o'
    | _ => false
  | .whenValue x cs o => match b with
    | .whenValue y cs' o' => x.same y && MatchCase.sameList cs cs' && Expr.sameOption o o'
    | _ => false
  | .use x c => match b with
    | .use y c' => x.same y && c.same c'
    | _ => false
  | .load x => match b with
    | .load y => x == y
    | _ => false

def Expr.sameOption (a b : Option Expr) : Bool :=
  match a, b with
  | none, none => true
  | some x, some y => x.same y
  | _, _ => false

def Expr.sameList (a b : List Expr) : Bool :=
  match a, b with
  | [], [] => true
  | x :: xs, y :: ys => x.same y && Expr.sameList xs ys
  | _, _ => false

def FuncDef.same (a b : FuncDef) : Bool :=
  match a, b with
  | .mk n ps r xs, .mk n' ps' r' ys => n == n' && ps == ps' && r == r' && Stmt.sameList xs ys

def ArrayItem.same (a b : ArrayItem) : Bool :=
  match a, b with
  | .mk x c s, .mk y c' s' => x.same y && Expr.sameOption c c' && s == s'

def ArrayItem.sameList (a b : List ArrayItem) : Bool :=
  match a, b with
  | [], [] => true
  | x :: xs, y :: ys => x.same y && ArrayItem.sameList xs ys
  | _, _ => false

def ObjectItem.same (a b : ObjectItem) : Bool :=
  match a, b with
  | .entry k x, .entry k' y => k.same k' && x.same y
  | .spread x, .spread y => x.same y
  | _, _ => false

def ObjectItem.sameList (a b : List ObjectItem) : Bool :=
  match a, b with
  | [], [] => true
  | x :: xs, y :: ys => x.same y && ObjectItem.sameList xs ys
  | _, _ => false

def Target.same (a b : Target) : Bool :=
  match a, b with
  | .ident n, .ident n' => n == n'
  | .member x n, .member y n' => x.same y && n == n'
  | .index x i, .index y j => x.same y && i.same j
  | _, _ => false

def Arg.same (a b : Arg) : Bool :=
  match a, b with
  | .positional x, .positional y => x.same y
  | .keyword n x, .keyword n' y => n == n' && x.same y
  | .spread x, .spread y => x.same y
  | .hole i, .hole j => i == j
  | _, _ => false

def Arg.sameList (a b : List Arg) : Bool :=
  match a, b with
  | [], [] => true
  | x :: xs, y :: ys => x.same y && Arg.sameList xs ys
  | _, _ => false

def Call.same (a b : Call) : Bool :=
  match a, b with
  | .mk x as o, .mk y bs o' => x.same y && Arg.sameList as bs && o == o'

def Link.same (a b : Link) : Bool :=
  match a, b with
  | .mk op x, .mk op' y => op == op' && x.same y

def Link.sameList (a b : List Link) : Bool :=
  match a, b with
  | [], [] => true
  | x :: xs, y :: ys => x.same y && Link.sameList xs ys
  | _, _ => false

def Source.same (a b : Source) : Bool :=
  match a, b with
  | .iterable x, .iterable y => x.same y
  | .range f l i, .range g m j => f.same g && l.same m && i == j
  | _, _ => false

def Comprehension.same (a b : Comprehension) : Bool :=
  match a, b with
  | .mk v i s f, .mk v' i' s' f' => v == v' && i == i' && s.same s' && Expr.sameOption f f'

def WhenCase.same (a b : WhenCase) : Bool :=
  match a, b with
  | .mk c x, .mk c' y => c.same c' && x.same y

def WhenCase.sameList (a b : List WhenCase) : Bool :=
  match a, b with
  | [], [] => true
  | x :: xs, y :: ys => x.same y && WhenCase.sameList xs ys
  | _, _ => false

def Pattern.same (a b : Pattern) : Bool :=
  match a, b with
  | .oneOf xs, .oneOf ys => Expr.sameList xs ys
  | .within l u i j, .within l' u' i' j' =>
    Expr.sameOption l l' && Expr.sameOption u u' && i == i' && j == j'
  | _, _ => false

def MatchCase.same (a b : MatchCase) : Bool :=
  match a, b with
  | .mk p x, .mk p' y => p.same p' && x.same y

def MatchCase.sameList (a b : List MatchCase) : Bool :=
  match a, b with
  | [], [] => true
  | x :: xs, y :: ys => x.same y && MatchCase.sameList xs ys
  | _, _ => false

def Closer.same (a b : Closer) : Bool :=
  match a, b with
  | .standard, .standard => true
  | .method n, .method n' => n == n'
  | .func x, .func y => x.same y
  | _, _ => false

/-- Whether two statements have the same structure and position. -/
def Stmt.same (a b : Stmt) : Bool :=
  match a, b with
  | .mk p x, .mk p' y => p == p' && x.same y

def Stmt.sameList (a b : List Stmt) : Bool :=
  match a, b with
  | [], [] => true
  | x :: xs, y :: ys => x.same y && Stmt.sameList xs ys
  | _, _ => false

def Stmt.sameBlock (a b : Option (List Stmt)) : Bool :=
  match a, b with
  | none, none => true
  | some x, some y => Stmt.sameList x y
  | _, _ => false

def StmtKind.same (a b : StmtKind) : Bool :=
  match a with
  | .expr x => match b with
    | .expr y => x.same y
    | _ => false
  | .block xs => match b with
    | .block ys => Stmt.sameList xs ys
    | _ => false
  | .cond xs o => match b with
    | .cond ys o' => IfArm.sameList xs ys && Stmt.sameBlock o o'
    | _ => false
  | .loop l s c n xs => match b with
    | .loop l' s' c' n' ys =>
      l == l' && Expr.sameOption s s' && Expr.sameOption c c' && Expr.sameOption n n' && Stmt.sameList xs ys
    | _ => false
  | .forEach l i v s xs => match b with
    | .forEach l' i' v' s' ys => l == l' && i == i' && v == v' && s.same s' && Stmt.sameList xs ys
    | _ => false
  | .whileDo l c xs => match b with
    | .whileDo l' c' ys => l == l' && c.same c' && Stmt.sameList xs ys
    | _ => false
  | .doWhile l c xs => match b with
    | .doWhile l' c' ys => l == l' && c.same c' && Stmt.sameList xs ys
    | _ => false
  | .breakLoop l => match b with
    | .breakLoop l' => l == l'
    | _ => false
  | .continueLoop l => match b with
    | .continueLoop l' => l == l'
    | _ => false
  | .ret x => match b with
    | .ret y => Expr.sameOption x y
    | _ => false
  | .switch x cs o => match b with
    | .switch y cs' o' => x.same y && SwitchCase.sameList cs cs' && Stmt.sameBlock o o'
    | _ => false
  | .export n x => match b with
    | .export n' y => n == n' && x.same y
    | _ => false
  | .cls x => match b with
    | .cls y => x.same y
    | _ => false
  | .extend e t ms => match b with
    | .extend e' t' ms' => e == e' && t.same t' && MemberDef.sameList ms ms'
    | _ => false
  | .defer x => match b with
    | .defer y => x.same y
    | _ => false
  | .blockDefer x => match b with
    | .blockDefer y => x.same y
    | _ => false
  | .attempt xs h c => match b with
    | .attempt ys h' c' => Stmt.sameList xs ys && Handler.sameOption h h' && Stmt.sameBlock c c'
    | _ => false
  | .fallback s xs => match b with
    | .fallback s' ys => s.same s' && Stmt.sameList xs ys
    | _ => false
  | .assert c m => match b with
    | .assert c' m' => c.same c' && Expr.sameOption m m'
    | _ => false
  | .throw x => match b with
    | .throw y => x.same y
    | _ => false

def IfArm.same (a b : IfArm) : Bool :=
  match a, b with
  | .mk s c xs, .mk s' c' ys => Expr.sameOption s s' && c.same c' && Stmt.sameList xs ys

def IfArm.sameList (a b : List IfArm) : Bool :=
  match a, b with
  | [], [] => true
  | x :: xs, y :: ys => x.same y && IfArm.sameList xs ys
  | _, _ => false

def SwitchCase.same (a b : SwitchCase) : Bool :=
  match a, b with
  | .mk p xs f, .mk p' ys f' => p.same p' && Stmt.sameList xs ys && f == f'

def SwitchCase.sameList (a b : List SwitchCase) : Bool :=
  match a, b with
  | [], [] => true
  | x :: xs, y :: ys => x.same y && SwitchCase.sameList xs ys
  | _, _ => false

def MemberDef.same (a b : MemberDef) : Bool :=
  match a, b with
  | .mk k x, .mk k' y => k.same k' && x.same y

def MemberDef.sameList (a b : List MemberDef) : Bool :=
  match a, b with
  | [], [] => true
  | x :: xs, y :: ys => x.same y && MemberDef.sameList xs ys
  | _, _ => false

def ClassDef.same (a b : ClassDef) : Bool :=
  match a, b with
  | .mk n e bs ms ss, .mk n' e' bs' ms' ss' =>
    n == n' && e == e' && Expr.sameList bs bs' && MemberDef.sameList ms ms' && MemberDef.sameList ss ss'

def Handler.same (a b : Handler) : Bool :=
  match a, b with
  | .mk n xs, .mk n' ys => n == n' && Stmt.sameList xs ys

def Handler.sameOption (a b : Option Handler) : Bool :=
  match a, b with
  | none, none => true
  | some x, some y => x.same y
  | _, _ => false

end

end ScriptEngine
