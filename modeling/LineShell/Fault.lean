import LineShell.Bytes.Quoted
import LineShell.Errno

namespace LineShell

inductive Cause where
  | unterminatedQuote
  | unterminatedSubshell
  | emptyStage
  | missingTarget
  | unsupportedDuplication
  | substitution
  | errno (code : Errno)
  | alreadyClosed
  | notExist
  | onPath (call path : Bytes) (cause : Cause)
  | onCall (call : Bytes) (cause : Cause)
  | plain (text : Bytes)
  deriving DecidableEq, Repr

namespace Cause

def message : Cause → Bytes
  | unterminatedQuote => ascii "unterminated quote"
  | unterminatedSubshell => ascii "unterminated subshell"
  | emptyStage => ascii "syntax error: empty command"
  | missingTarget => ascii "syntax error: missing redirection target"
  | unsupportedDuplication => ascii "syntax error: unsupported descriptor duplication"
  | substitution => ascii "command substitution is not supported"
  | errno code => Errno.message code
  | alreadyClosed => ascii "file already closed"
  | notExist => ascii "file does not exist"
  | onPath call path cause => call ++ ascii " " ++ path ++ ascii ": " ++ cause.message
  | onCall call cause => call ++ ascii ": " ++ cause.message
  | plain text => text

def code : Cause → Errno
  | errno n => n
  | onPath _ _ cause => cause.code
  | onCall _ cause => cause.code
  | _ => 0

def isMissing : Cause → Bool
  | errno n => n = Errno.noEntry
  | notExist => true
  | onPath _ _ cause => cause.isMissing
  | onCall _ cause => cause.isMissing
  | _ => false

def chain : Cause → List Cause
  | onPath call path cause => onPath call path cause :: cause.chain
  | onCall call cause => onCall call cause :: cause.chain
  | cause => [cause]

end Cause

inductive Fault where
  | parse (cause : Cause) (token : Bytes)
  | resource (call path : Bytes) (cause : Cause)
  | spawn (path : Bytes) (cause : Cause)
  deriving DecidableEq, Repr

namespace Fault

def cause : Fault → Cause
  | parse c _ => c
  | resource _ _ c => c
  | spawn _ c => c

def message : Fault → Bytes
  | parse cause token =>
    if token.isEmpty then cause.message
    else cause.message ++ ascii " near " ++ Quoted.encode token
  | resource call path cause =>
    if path.isEmpty then call ++ ascii ": " ++ cause.message
    else call ++ ascii " " ++ path ++ ascii ": " ++ cause.message
  | spawn path cause => ascii "cannot start " ++ path ++ ascii ": " ++ cause.message

def status : Fault → Int
  | resource _ _ cause => if cause.code = 0 then 1 else cause.code
  | _ => 1

def isSpawn : Fault → Bool
  | spawn .. => true
  | _ => false

def isParse : Fault → Bool
  | parse .. => true
  | _ => false

end Fault
end LineShell
