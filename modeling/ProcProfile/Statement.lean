/-!
# Statement trees

A procedure's body is a tree of statements.  A compound statement holds lists of statements, its
*arms*: the body and the exception handlers of a block, the branches of an IF or a CASE, the body of
a loop.  The interpreter may give each statement an id of its own; the line is the line of the source
on which the statement starts, and a line below 1 marks a statement that the interpreter made up.

Main definitions: `Statement`, `Statement.arms`, `Statement.preorder`, `Statement.count`.
-/

namespace ProcProfile

/-- The seven loops. -/
inductive LoopKind where
  | loop
  | while
  | forInt
  | forQuery
  | forCursor
  | forDynamic
  | forEachArray
  deriving DecidableEq, Repr

/-- The statements without arms. -/
inductive SimpleKind where
  | assign
  | perform
  | execSql
  | dynExecute
  | return
  | returnNext
  | returnQuery
  | raise
  | assert
  | exit
  | open
  | fetch
  | close
  | getDiag
  | call
  | commit
  | rollback
  deriving DecidableEq, Repr

/-- How a loop is named in reports. -/
def LoopKind.typename : LoopKind → String
  | .loop => "LOOP"
  | .while => "WHILE"
  | .forInt => "FOR with integer loop variable"
  | .forQuery => "FOR over SELECT rows"
  | .forCursor => "FOR over cursor"
  | .forDynamic => "FOR over EXECUTE statement"
  | .forEachArray => "FOREACH over array"

/-- How a simple statement is named in reports. -/
def SimpleKind.typename : SimpleKind → String
  | .assign => "assignment"
  | .perform => "PERFORM"
  | .execSql => "SQL statement"
  | .dynExecute => "EXECUTE"
  | .return => "RETURN"
  | .returnNext => "RETURN NEXT"
  | .returnQuery => "RETURN QUERY"
  | .raise => "RAISE"
  | .assert => "ASSERT"
  | .exit => "EXIT"
  | .open => "OPEN"
  | .fetch => "FETCH"
  | .close => "CLOSE"
  | .getDiag => "GET DIAGNOSTICS"
  | .call => "CALL"
  | .commit => "COMMIT"
  | .rollback => "ROLLBACK"

/-- Where a statement stands: the interpreter's id for it, if it gives ids, and its line. -/
structure Site where
  nativeId : Option UInt32
  line : Int32
  deriving DecidableEq, Repr

/-- A statement with everything nested in it. -/
inductive Statement where
  | block (site : Site) (label : Option String) (body : List Statement)
      (handlers : List (List Statement))
  | cond (site : Site) (thenBody : List Statement) (elsifs : List (List Statement))
      (elseBody : Option (List Statement))
  | choice (site : Site) (whens : List (List Statement)) (elseBody : Option (List Statement))
  | loop (site : Site) (kind : LoopKind) (body : List Statement)
  | simple (site : Site) (kind : SimpleKind) (fingerprint : Option UInt64)

/-- Which list of its parent a statement belongs to. -/
inductive Arm where
  | body
  | handler (number : Nat)
  | thenBody
  | elsif (number : Nat)
  | elseBody
  | caseWhen (number : Nat)
  | caseElse
  | loopBody
  deriving DecidableEq, Repr

/-- How an arm is named in reports; numbered arms count from 1. -/
def Arm.label : Arm → String
  | .body => "body"
  | .handler n => "exception " ++ toString n
  | .thenBody => "then body"
  | .elsif n => "elsif " ++ toString n
  | .elseBody => "else body"
  | .caseWhen n => "case when " ++ toString n
  | .caseElse => "case else"
  | .loopBody => "loop body"

namespace Statement

def site : Statement → Site
  | .block site .. => site
  | .cond site .. => site
  | .choice site .. => site
  | .loop site .. => site
  | .simple site .. => site

def line (s : Statement) : Int32 := s.site.line

def nativeId (s : Statement) : Option UInt32 := s.site.nativeId

/-- How a statement is named in reports. -/
def typename : Statement → String
  | .block .. => "statement block"
  | .cond .. => "IF"
  | .choice .. => "CASE"
  | .loop _ kind _ => kind.typename
  | .simple _ kind _ => kind.typename

/-- A statement of the source, not one that the interpreter made up. -/
def isVisible (s : Statement) : Bool := decide (1 ≤ s.line)

def isCompound : Statement → Bool
  | .simple .. => false
  | _ => true

/-- The fingerprint of the query that a simple statement runs. -/
def fingerprint : Statement → Option UInt64
  | .simple _ _ fingerprint => fingerprint
  | _ => none

/-- The label of a block. -/
def label : Statement → Option String
  | .block _ label .. => label
  | _ => none

/-- Numbers a list of arms from 1. -/
def numbered (arm : Nat → Arm) (lists : List (List Statement)) : List (Arm × List Statement) :=
  lists.mapIdx fun i list => (arm (i + 1), list)

/-- The arms of a statement, in source order. -/
def arms : Statement → List (Arm × List Statement)
  | .block _ _ body handlers => (.body, body) :: numbered .handler handlers
  | .cond _ thenBody elsifs elseBody =>
    (.thenBody, thenBody) :: (numbered .elsif elsifs ++ elseBody.toList.map ((.elseBody, ·)))
  | .choice _ whens elseBody => numbered .caseWhen whens ++ elseBody.toList.map ((.caseElse, ·))
  | .loop _ _ body => [(.loopBody, body)]
  | .simple .. => []

mutual

/-- The statements passed by a walk that has `passed` some before: a statement before its arms, arm
after arm.  The one passed last stands in front. -/
def walk (passed : List Statement) : Statement → List Statement
  | s@(.block _ _ body handlers) => walkLists (walkList (s :: passed) body) handlers
  | s@(.cond _ thenBody elsifs none) => walkLists (walkList (s :: passed) thenBody) elsifs
  | s@(.cond _ thenBody elsifs (some elseBody)) =>
    walkList (walkLists (walkList (s :: passed) thenBody) elsifs) elseBody
  | s@(.choice _ whens none) => walkLists (s :: passed) whens
  | s@(.choice _ whens (some elseBody)) => walkList (walkLists (s :: passed) whens) elseBody
  | s@(.loop _ _ body) => walkList (s :: passed) body
  | s@(.simple ..) => s :: passed

/-- The same for the statements of a list. -/
def walkList (passed : List Statement) : List Statement → List Statement
  | [] => passed
  | s :: list => walkList (walk passed s) list

/-- The same for the statements of several lists, list after list. -/
def walkLists (passed : List Statement) : List (List Statement) → List Statement
  | [] => passed
  | list :: lists => walkLists (walkList passed list) lists

end

/-- The statement and all statements nested in it: a statement before its arms, arm after arm. -/
def preorder (s : Statement) : List Statement := (walk [] s).reverse

mutual

/-- How many statements the tree holds, and `n` more. -/
def countFrom (n : Nat) : Statement → Nat
  | .block _ _ body handlers => countLists (countList (n + 1) body) handlers
  | .cond _ thenBody elsifs none => countLists (countList (n + 1) thenBody) elsifs
  | .cond _ thenBody elsifs (some elseBody) =>
    countList (countLists (countList (n + 1) thenBody) elsifs) elseBody
  | .choice _ whens none => countLists (n + 1) whens
  | .choice _ whens (some elseBody) => countList (countLists (n + 1) whens) elseBody
  | .loop _ _ body => countList (n + 1) body
  | .simple .. => n + 1

/-- How many statements a list holds, with those nested in them, and `n` more. -/
def countList (n : Nat) : List Statement → Nat
  | [] => n
  | s :: list => countList (countFrom n s) list

/-- How many statements several lists hold, and `n` more. -/
def countLists (n : Nat) : List (List Statement) → Nat
  | [] => n
  | list :: lists => countLists (countList n list) lists

end

/-- How many statements the tree holds. -/
def count (s : Statement) : Nat := countFrom 0 s

mutual

theorem length_walk (passed : List Statement) (s : Statement) :
    (walk passed s).length = countFrom passed.length s := by
  match s with
  | .block _ _ body handlers =>
    simp only [walk, countFrom, length_walkLists _ handlers, length_walkList _ body, List.length_cons]
  | .cond _ thenBody elsifs none =>
    simp only [walk, countFrom, length_walkLists _ elsifs, length_walkList _ thenBody,
      List.length_cons]
  | .cond _ thenBody elsifs (some elseBody) =>
    simp only [walk, countFrom, length_walkLists _ elsifs, length_walkList _ thenBody,
      length_walkList _ elseBody, List.length_cons]
  | .choice _ whens none =>
    simp only [walk, countFrom, length_walkLists _ whens, List.length_cons]
  | .choice _ whens (some elseBody) =>
    simp only [walk, countFrom, length_walkLists _ whens, length_walkList _ elseBody,
      List.length_cons]
  | .loop _ _ body => simp only [walk, countFrom, length_walkList _ body, List.length_cons]
  | .simple .. => simp only [walk, countFrom, List.length_cons]

theorem length_walkList (passed : List Statement) (list : List Statement) :
    (walkList passed list).length = countList passed.length list := by
  match list with
  | [] => simp only [walkList, countList]
  | s :: list => simp only [walkList, countList, length_walkList _ list, length_walk _ s]

theorem length_walkLists (passed : List Statement) (lists : List (List Statement)) :
    (walkLists passed lists).length = countLists passed.length lists := by
  match lists with
  | [] => simp only [walkLists, countLists]
  | list :: lists =>
    simp only [walkLists, countLists, length_walkLists _ lists, length_walkList _ list]

end

/-- The statements are as many as their count says. -/
@[simp] theorem length_preorder (s : Statement) : s.preorder.length = s.count := by
  simp [preorder, count, length_walk]

end Statement

end ProcProfile
