/-!
# Libael.Base

The small vocabulary every part of the library shares: the errno values the
source switches on, the exceptions it throws (with their texts), and the threads
that may run library code.
-/

namespace Libael

/-- The `errno` values the source distinguishes somewhere, and any other one. -/
inductive Errno
  | EAGAIN | EFAULT | EINVAL | ENOTCONN | ENOTSOCK | EBADF | EDESTADDRREQ | EMSGSIZE | ENOMEM
  | EOPNOTSUPP | EINPROGRESS | EAFNOSUPPORT | EALREADY | EISCONN | EMFILE | ENFILE | ENOBUFS
  | other (code : Nat)
  deriving Repr, DecidableEq

/-- What a C++ `throw` of the source carries. -/
inductive Exception
  /-- `throw std::system_error(errno, std::system_category(), what)` -/
  | systemError (errno : Errno) (what : String)
  /-- `throw "text"` -/
  | text (msg : String)
  /-- `std::out_of_range` -/
  | outOfRange (what : String)
  /-- from `new T[n]` with a negative `n`: `std::bad_array_new_length` by the text of the
  standard; for elements of one byte some compilers throw its base class `std::bad_alloc` -/
  | badArrayNewLength
  deriving Repr, DecidableEq

/-- A thread that executes library code: the thread of the event loop, or one of
the threads of the user. -/
inductive Agent
  | loop
  | user (n : Nat)
  deriving Repr, DecidableEq

end Libael
