import TwinLisp.Library.Collections
import TwinLisp.Library.HigherOrder
import TwinLisp.Library.Numbers
import TwinLisp.Library.Predicates
import TwinLisp.Library.Reflection
import TwinLisp.Library.Sequences

/-!
# The built-ins

What each built-in does. A built-in gets its arguments and a way to call functions.
-/

namespace TwinLisp.Library

/-- Run a built-in. -/
def run (call : Caller) (b : Builtin) (args : List Value) : Eval Value :=
  match b with
  | .add => add args
  | .sub => sub args
  | .mul => mul args
  | .div => div args
  | .quot => divided b .quot args
  | .rem => divided b .rem args
  | .mod => divided b .mod args
  | .inc => step b .add args
  | .dec => step b .sub args
  | .max => extremum b .gt args
  | .min => extremum b .lt args
  | .eq => equality b true args
  | .notEq => equality b false args
  | .lt => chain b .lt args
  | .gt => chain b .gt args
  | .le => chain b .le args
  | .ge => chain b .ge args
  | .identical => identical args
  | .not => typeTest b (!·.isTruthy) args
  | .isNil => typeTest b (· == .nil) args
  | .isNumber => typeTest b Value.isNumber args
  | .isInt => typeTest b (fun | .int _ => true | _ => false) args
  | .isString => typeTest b (isRef .str) args
  | .isSymbol => typeTest b (fun | .symbol _ => true | _ => false) args
  | .isKeyword => typeTest b (fun | .keyword _ => true | _ => false) args
  | .isList => typeTest b (isRef .list) args
  | .isVector => typeTest b (isRef .vector) args
  | .isMap => typeTest b (isRef .map) args
  | .isSet => typeTest b (isRef .set) args
  | .isFn => typeTest b (isRef .function) args
  | .isAtom => typeTest b (isRef .atom) args
  | .isSequential => isSequential args
  | .isZero => signTest b (·.isEq) args
  | .isPos => signTest b (·.isGT) args
  | .isNeg => signTest b (·.isLT) args
  | .isEven => parity b true args
  | .isOdd => parity b false args
  | .list => Eval.newList args
  | .vector => Eval.newVector args
  | .hashMap => hashMap args
  | .hashSet => Eval.newSet args
  | .conj => conj args
  | .assoc => assoc args
  | .dissoc => dissoc args
  | .get => getFrom args
  | .contains => contains args
  | .keys => mapView b (·.1) args
  | .vals => mapView b (·.2) args
  | .first => first args
  | .second => second args
  | .last => last args
  | .rest => rest args
  | .next => next args
  | .cons => cons args
  | .count => count args
  | .nth => nth args
  | .seq => seq args
  | .concat => concat args
  | .isEmpty => isEmpty args
  | .reverse => reverse args
  | .range => range args
  | .apply => apply call args
  | .map => map call args
  | .filter => filter call args
  | .reduce => reduce call args
  | .atom =>
    match args with
    | [v] => Eval.new (.atom v)
    | _ => refuseCount b (.exactly 1) args
  | .deref => deref args
  | .reset => reset args
  | .swap => swap call args
  | .compareAndSet => compareAndSet args
  | .str => str args
  | .prStr => prStr args
  | .print => print false "" args
  | .println => print false "\n" args
  | .prn => print true "\n" args
  | .exInfo => exInfo args
  | .exData => field b "data" args
  | .exMessage => field b "message" args
  | .gensym => gensym args
  | .heapStats => heapStats args
  | .macroexpandOne => macroexpandOne call args
  | .macroexpand => macroexpand call args

end TwinLisp.Library
