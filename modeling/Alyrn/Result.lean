import Mathlib.Data.Int.Notation
import Mathlib.Data.Nat.Notation

/-!
# Error values

Alyrn's `Error` is an errno in the system category, here its number. Kernel results are integers
with failures encoded as `-errno`.
-/

namespace Alyrn

abbrev Error := ℕ

def negErrno (value : ℤ) : Error := (-value).toNat

def EPERM : Error := 1
def ENOENT : Error := 2
def EINTR : Error := 4
def EAGAIN : Error := 11
def EWOULDBLOCK : Error := EAGAIN
def ENOMEM : Error := 12
def EBUSY : Error := 16
def EEXIST : Error := 17
def EFAULT : Error := 14
def EINVAL : Error := 22
def ENOSPC : Error := 28
def EPIPE : Error := 32
def EIO : Error := 5
def EBADF : Error := 9
def ETIME : Error := 62
def ENONET : Error := 64
def EPROTO : Error := 71
def EOVERFLOW : Error := 75
def ENOPROTOOPT : Error := 92
def EOPNOTSUPP : Error := 95
def ENETDOWN : Error := 100
def ENETUNREACH : Error := 101
def ECONNABORTED : Error := 103
def ECONNRESET : Error := 104
def ENOBUFS : Error := 105
def ENOTCONN : Error := 107
def ETIMEDOUT : Error := 110
def EHOSTDOWN : Error := 112
def EHOSTUNREACH : Error := 113
def EALREADY : Error := 114
def ECANCELED : Error := 125

end Alyrn
