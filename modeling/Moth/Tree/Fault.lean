import Moth.Token.Basic
/-!
# Syntax errors

What can be wrong with the tokens of a program, and the words for it.
-/

namespace Moth

inductive FunctionSort where
  | function | method
deriving DecidableEq, Repr

def FunctionSort.label : FunctionSort → String
  | function => "function"
  | method => "method"

inductive ParseFault where
  | expectClassName
  | expectSuperclassName
  | expectClassBody
  | expectClassEnd
  | expectName (sort : FunctionSort)
  | expectParams (sort : FunctionSort)
  | tooManyParams
  | expectParamName
  | expectParamsEnd
  | expectBody (sort : FunctionSort)
  | expectVariableName
  | expectVariableEnd
  | expectForClauses
  | expectConditionEnd
  | expectForClausesEnd
  | expectIfCondition
  | expectIfConditionEnd
  | expectPrintEnd
  | expectReturnEnd
  | expectWhileCondition
  | expectWhileConditionEnd
  | expectBlockEnd
  | expectExpressionEnd
  | invalidTarget
  | expectPropertyName
  | tooManyArgs
  | expectArgsEnd
  | expectSuperDot
  | expectSuperMethod
  | expectGroupEnd
  | expectExpression
  | expectInputEnd
  | tooMuchNesting
deriving DecidableEq, Repr

def maxArgs : Nat := 255

def ParseFault.message : ParseFault → String
  | expectClassName => "Expect class name."
  | expectSuperclassName => "Expect superclass name."
  | expectClassBody => "Expect '\x7b' before class body."
  | expectClassEnd => "Expect '\x7d' after class body."
  | expectName sort => "Expect " ++ sort.label ++ " name."
  | expectParams sort => "Expect '(' after " ++ sort.label ++ " name."
  | tooManyParams => "Can't have more than " ++ toString maxArgs ++ " parameters."
  | expectParamName => "Expect parameter name."
  | expectParamsEnd => "Expect ')' after parameters."
  | expectBody sort => "Expect '\x7b' before " ++ sort.label ++ " body."
  | expectVariableName => "Expect variable name."
  | expectVariableEnd => "Expect ';' after variable declaration."
  | expectForClauses => "Expect '(' after 'for'."
  | expectConditionEnd => "Expect ';' after loop condition."
  | expectForClausesEnd => "Expect ')' after for clauses."
  | expectIfCondition => "Expect '(' after 'if'."
  | expectIfConditionEnd => "Expect ')' after if condition."
  | expectPrintEnd => "Expect ';' after value."
  | expectReturnEnd => "Expect ';' after return value."
  | expectWhileCondition => "Expect '(' after 'while'."
  | expectWhileConditionEnd => "Expect ')' after condition."
  | expectBlockEnd => "Expect '\x7d' after block."
  | expectExpressionEnd => "Expect ';' after expression."
  | invalidTarget => "Invalid assignment target."
  | expectPropertyName => "Expect property name after '.'."
  | tooManyArgs => "Can't have more than " ++ toString maxArgs ++ " arguments."
  | expectArgsEnd => "Expect ')' after arguments."
  | expectSuperDot => "Expect '.' after 'super'."
  | expectSuperMethod => "Expect superclass method name."
  | expectGroupEnd => "Expect ')' after expression."
  | expectExpression => "Expect expression."
  | expectInputEnd => "Expect end of expression."
  | tooMuchNesting => "Too much nesting."

structure ParseComplaint where
  token : Token
  fault : ParseFault

end Moth
