import PlanningDomain.CommandLine

/-! The program: it fetches the environment and the files, and shows the result. -/
namespace PlanningDomain.Program

/-- The variables of the environment, which end in a zero byte each. -/
def environment (bytes : List UInt8) : List (String × String) :=
  (String.ofList (Utf8.lossyText bytes)).splitOn "\x00" |>.filterMap fun v =>
    let cs := v.toList
    let name := cs.takeWhile (· != '=')
    if name.length < cs.length then
      some (String.ofList name, String.ofList (cs.drop (name.length + 1)))
    else none

/-- The fault behind a system's error number, which may come negated in 32 bits. -/
def faultOfCode (code : Nat) (text : String) : ReadFault :=
  match min code (0x100000000 - code) with
  | 2 => .notFound
  | 20 => .notDirectory
  | 21 => .isDirectory
  | 36 => .nameTooLong
  | _ => .other text

def fault (e : IO.Error) : ReadFault :=
  match e with
  | .noFileOrDirectory _ code _ => faultOfCode code.toNat (toString e)
  | .inappropriateType _ code _ => faultOfCode code.toNat (toString e)
  | .invalidArgument _ code _ => faultOfCode code.toNat (toString e)
  | .resourceExhausted _ code _ => faultOfCode code.toNat (toString e)
  | .otherError code _ => faultOfCode code.toNat (toString e)
  | e => .other (toString e)

def fetch (path : String) : IO (Except ReadFault (List UInt8)) := do
  if path.isEmpty then return .error .notFound
  else if path.toList.contains '\x00' then return .error .nulInPath
  else
    try
      let bytes ← IO.FS.readBinFile path
      return .ok bytes.toList
    catch e => return .error (fault e)

end PlanningDomain.Program

open PlanningDomain

def main (arguments : List String) : IO UInt32 := do
  let environ ← Program.fetch "/proc/self/environ"
  let paths := CommandLine.pathsRead arguments
  let contents ← paths.mapM fun path => do return (path, ← Program.fetch path)
  let files : Files := ⟨fun path => (contents.lookup path).getD (.error .notFound)⟩
  let env := Program.environment (environ.toOption.getD [])
  let result := CommandLine.run arguments env files
  (← IO.getStdout).putStr result.output
  (← IO.getStderr).putStr (result.errorStream .plain env)
  return UInt32.ofNat result.code
