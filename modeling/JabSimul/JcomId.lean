import JabSimul.State

/-! Identifiers of requests: a prefix and the decimal digits of a counter of the
user, cut by `snprintf` to the buffer of the caller. -/
namespace JabSimul

/-- The text that `snprintf(buf,bufsize,"JCOM_%u",n)` leaves in `buf`. -/
def jcomId (bufsize n : Nat) : CString := apSnprintf bufsize (cstr "JCOM_" ++ fmtU n)

/-- Every caller hands over a buffer of ten bytes. -/
def idBufSize : Nat := 10

def makeJcomId (u : UserPtr) (bufsize : Nat) : M CString := do
  let n := (← getUser u).tmpid
  modUser u fun user => { user with tmpid := user.tmpid + 1 }
  emit (.idDrawn u n)
  return jcomId bufsize n

end JabSimul
