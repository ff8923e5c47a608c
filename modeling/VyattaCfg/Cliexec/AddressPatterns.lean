import VyattaCfg.Library.Bytes
import VyattaCfg.Library.Regex

namespace VyattaCfg.Cliexec

open ByteString Regex

abbrev Pattern := RegularExpression UInt8

section Ipv4

def decDigit : Pattern := anyOf (str "0123456789")

def reIpv4Byte : Pattern :=
  lit (str "25") * anyOf (str "012345") + lit (str "2") * anyOf (str "01234") * decDigit +
    anyOf (str "01") * decDigit * decDigit + rep 1 2 decDigit

def reIpv4 : Pattern := reIpv4Byte * (lit (str ".") * reIpv4Byte) ^ 3

def reIpv4PrefixLen : Pattern :=
  lit (str "3") * anyOf (str "012") + anyOf (str "12") * decDigit + decDigit

def reIpv4Net : Pattern := reIpv4 * lit (str "/") * reIpv4PrefixLen

end Ipv4

section Ipv6

def hexDigit : Pattern := anyOf (str "abcdefABCDEF0123456789")

def reH16 : Pattern := rep 1 4 hexDigit

def reH16Colon : Pattern := reH16 * lit (str ":")

def reLs32 : Pattern := reH16 * lit (str ":") * reH16 + reIpv4

def reIpv6P1 : Pattern := reH16Colon ^ 6 * reLs32

def reIpv6P2 : Pattern := lit (str "::") * reH16Colon ^ 5 * reLs32

def reIpv6P3 : Pattern := opt reH16 * lit (str "::") * reH16Colon ^ 4 * reLs32

def reIpv6P4 : Pattern := opt (rep 0 1 reH16Colon * reH16) * lit (str "::") * reH16Colon ^ 3 * reLs32

def reIpv6P5 : Pattern := opt (rep 0 2 reH16Colon * reH16) * lit (str "::") * reH16Colon ^ 2 * reLs32

def reIpv6P6 : Pattern := opt (rep 0 3 reH16Colon * reH16) * lit (str "::") * reH16Colon ^ 1 * reLs32

def reIpv6P7 : Pattern := opt (rep 0 4 reH16Colon * reH16) * lit (str "::") * reLs32

def reIpv6P8 : Pattern := opt (rep 0 5 reH16Colon * reH16) * lit (str "::") * reH16

def reIpv6P9 : Pattern := opt (rep 0 6 reH16Colon * reH16) * lit (str "::")

def reIpv6 : Pattern :=
  reIpv6P1 + reIpv6P2 + reIpv6P3 + reIpv6P4 + reIpv6P5 + reIpv6P6 + reIpv6P7 + reIpv6P8 + reIpv6P9

def reIpv6PrefixLen : Pattern :=
  lit (str "12") * anyOf (str "012345678") + lit (str "1") * anyOf (str "01") * decDigit + decDigit * opt decDigit

def reIpv6Net : Pattern := reIpv6 * lit (str "/") * reIpv6PrefixLen

end Ipv6

def reMacaddr : Pattern := rep 1 2 hexDigit * (lit (str ":") * rep 1 2 hexDigit) ^ 5

end VyattaCfg.Cliexec
