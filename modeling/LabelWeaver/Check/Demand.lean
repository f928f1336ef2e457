import LabelWeaver.Check.Emitter

/-! The checks for contracts and shapes. The check for a shape throws `failedCheck` if the value is
    no object or if its properties are not as demanded. -/

namespace LabelWeaver

/-- What a failed shape check throws. -/
def failedCheck : String := "FailedAnnotationCheck"

/-! ### Variables of generated code -/

/-- Holds the names of the properties. -/
def propsVar : String := "$lfProps"
/-- Counts through the properties. -/
def iterVar : String := "$lfIter"
/-- Counts the properties that satisfy the contract. -/
def hitsVar : String := "$lfHits"
/-- Holds a caught error. -/
def errorVar : String := "$lfErr"
/-- Holds the value of a return statement. -/
def returnVar : String := "$lfRet"

namespace Emitter

/-- Checks the value against a contract: the base type, then each label, then the condition. -/
def expectation (e : Emitter) (value : Expr) (c : Contract) : List Stmt :=
  (c.base.toList.map fun base => e.stmt (e.assert value base)) ++
    (c.labels.map fun label => e.stmt (e.assert value (e.labelArg label))) ++
    c.condition.toList.map fun condition => e.stmt (e.assertCondition condition "assertion")

/-! ### Shapes -/

/-- Throws. -/
def fail (e : Emitter) : Stmt := .block (e.block [.throw e.anchor (e.string failedCheck)])

/-- Runs the checks if the test holds, and fails otherwise. -/
def orFail (e : Emitter) (test : Expr) (checks : List Stmt) : Stmt :=
  .ifElse e.anchor test (.block (e.block checks)) (some e.fail)

/-- Tests whether the value is an object. -/
def isObject (e : Emitter) (value : Expr) : Expr :=
  e.binary (e.binary (.unary e.anchor .typeof value) .eq (e.string "object")) .and
    (e.binary value .strictNe (.null e.anchor))

def ownNames (e : Emitter) (value : Expr) : Expr :=
  e.call (e.member (e.reference "Object") "getOwnPropertyNames") [value]

/-- The property that the loop has reached. -/
def currentProp (e : Emitter) (value : Expr) : Expr :=
  e.index value (e.index (e.reference propsVar) (e.reference iterVar))

/-- Runs statements for every property. -/
def propsLoop (e : Emitter) (body : List Stmt) : Stmt :=
  .forLoop e.anchor (.var (e.decl iterVar (e.number "0")))
    (some (e.binary (e.reference iterVar) .lt (e.member (e.reference propsVar) "length")))
    (some (e.increment iterVar)) (.block (e.block body))

/-- Every own property satisfies the contract. -/
def everyProp (e : Emitter) (value : Expr) (c : Contract) : Stmt :=
  e.orFail (e.isObject value)
    [e.var propsVar (e.ownNames value), e.propsLoop (e.expectation (e.currentProp value) c)]

/-- At least `count` own properties satisfy the contract. -/
def countProps (e : Emitter) (value count : Expr) (c : Contract) : Stmt :=
  let attempt := e.expectation (e.currentProp value) c ++ [e.stmt (e.increment hitsVar)]
  e.orFail (e.isObject value)
    [e.var propsVar (e.ownNames value),
     e.var hitsVar (e.number "0"),
     e.propsLoop [.tryCatch e.anchor (e.block attempt)
       (some ⟨e.anchor, some (e.binding errorVar), e.block []⟩) none],
     .ifElse e.anchor (e.binary (e.reference hitsVar) .lt count) e.fail none]

/-- The own property `prop` exists and satisfies the contract. -/
def namedProp (e : Emitter) (value prop : Expr) (c : Contract) : Stmt :=
  let exists? := e.binary (e.call (e.member (e.ownNames value) "indexOf") [prop]) .ge (e.number "0")
  e.orFail (e.binary (e.isObject value) .and exists?) (e.expectation (e.index value prop) c)

/-- Every check that a binding carries: the expected contract, every property, named properties, the
    number of properties. -/
def demand (e : Emitter) (value : Expr) (d : Demand) : List Stmt :=
  (d.expected.elim [] (e.expectation value)) ++
    (d.every?.toList.map (e.everyProp value)) ++
    (d.named.map fun (prop, c) => e.namedProp value prop c) ++
    d.counted.map fun (count, c) => e.countProps value count c

end Emitter

end LabelWeaver
